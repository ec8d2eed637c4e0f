import Subordination.Core.Kernel

/-!
# Addresses of a network

`sys::interface_address` is an address in a network, known by its index there, and
`sys::ipv4_socket_address` is an address with a port, in the form in which a
`sys::socket_address` holds it.
-/

namespace Subordination.Daemon

open Subordination.Core Subordination.Library

/-! ### Interface addresses -/

/-- `sys::interface_address`: the address with index `position` in the network. -/
structure InterfaceAddress where
  /-- The address of the network. -/
  network : ℕ
  /-- `position()`: the index of the address in the network; the first address has index 1. -/
  position : ℕ
  /-- The address is an address. -/
  inRange : network + position < 2 ^ 32
  deriving DecidableEq

namespace InterfaceAddress

/-- The address with index `i`. -/
def addressAt (a : InterfaceAddress) (i : ℕ) : UInt32 := UInt32.ofNat (a.network + i)

/-- `address()`. -/
def address (a : InterfaceAddress) : UInt32 := a.addressAt a.position

/-- `*(begin() + i)`. -/
def beginPlus (a : InterfaceAddress) (i : ℕ) : UInt32 := a.addressAt (i + 1)

/-- The interface address of an address and of the number of bits in its network mask. -/
def ofAddress (address : UInt32) (netmask : ℕ) : InterfaceAddress where
  network := address.toNat / 2 ^ (32 - netmask) * 2 ^ (32 - netmask)
  position := address.toNat % 2 ^ (32 - netmask)
  inRange := by
    rw [Nat.div_add_mod']
    exact address.toNat_lt

theorem address_ofAddress (address : UInt32) (netmask : ℕ) : (ofAddress address netmask).address = address := by
  show UInt32.ofNat (address.toNat / _ * _ + address.toNat % _) = address
  rw [Nat.div_add_mod', UInt32.ofNat_toNat]

theorem toNat_addressAt {a : InterfaceAddress} {i : ℕ} (hi : i ≤ a.position) :
    (a.addressAt i).toNat = a.network + i := by
  have hrange := a.inRange
  have hsize : UInt32.size = 2 ^ 32 := rfl
  exact UInt32.toNat_ofNat_of_lt' (by omega)

/-- Addresses are counted in 32 bits. -/
theorem addressAt_mod (a : InterfaceAddress) {i j : ℕ} (h : i % 2 ^ 32 = j % 2 ^ 32) :
    a.addressAt i = a.addressAt j := by
  refine UInt32.toNat_inj.1 ?_
  rw [addressAt, addressAt, UInt32.toNat_ofNat', UInt32.toNat_ofNat']
  omega

theorem addressAt_inj {a : InterfaceAddress} {i j : ℕ} (hi : i ≤ a.position) (hj : j ≤ a.position)
    (h : a.addressAt i = a.addressAt j) : i = j := by
  have hnat := congrArg UInt32.toNat h
  rw [toNat_addressAt hi, toNat_addressAt hj] at hnat
  omega

/-- No address with an index from 1 on is the default address. -/
theorem addressAt_ne_zero {a : InterfaceAddress} {i : ℕ} (hpos : 1 ≤ i) (hi : i ≤ a.position) :
    a.addressAt i ≠ 0 := by
  intro h
  have hnat := congrArg UInt32.toNat h
  rw [toNat_addressAt hi, UInt32.toNat_zero] at hnat
  omega

end InterfaceAddress

/-! ### Socket addresses -/

/-- `sys::ipv4_socket_address{address, port}`: the family, the port and the address, and the
padding that `sockaddr_in` ends with. -/
def ipv4SocketAddress (address : UInt32) (port : UInt16) : SocketAddress where
  bytes := [2, 0] ++ (Endian.big.encode 2 port.toNat ++ (Endian.big.encode 4 address.toNat ++
    List.replicate 8 0))
  size_lt := by simp

/-- `address()` of an address that is cast to `sys::ipv4_socket_address`. -/
def ipv4Address (a : SocketAddress) : UInt32 :=
  UInt32.ofNat (Endian.big.decode ((a.bytes.drop 4).take 4))

/-- `port()` of an address that is cast to `sys::ipv4_socket_address`. -/
def ipv4Port (a : SocketAddress) : UInt16 :=
  UInt16.ofNat (Endian.big.decode ((a.bytes.drop 2).take 2))

@[simp] theorem ipv4Address_socketAddress (address : UInt32) (port : UInt16) :
    ipv4Address (ipv4SocketAddress address port) = address := by
  have hbytes : ((ipv4SocketAddress address port).bytes.drop 4).take 4 =
      Endian.big.encode 4 address.toNat := by
    show (([2, 0] ++ (Endian.big.encode 2 port.toNat ++ _)).drop 4).take 4 = _
    rw [← List.append_assoc, List.drop_left' (by simp), List.take_left' (by simp)]
  rw [ipv4Address, hbytes, Endian.decode_encode_of_lt _ (by simpa using address.toNat_lt),
    UInt32.ofNat_toNat]

@[simp] theorem ipv4Port_socketAddress (address : UInt32) (port : UInt16) :
    ipv4Port (ipv4SocketAddress address port) = port := by
  have hbytes : ((ipv4SocketAddress address port).bytes.drop 2).take 2 =
      Endian.big.encode 2 port.toNat := by
    show (([2, 0] ++ _).drop 2).take 2 = _
    rw [List.drop_left' (by simp), List.take_left' (by simp)]
  rw [ipv4Port, hbytes, Endian.decode_encode_of_lt _ (by simpa using port.toNat_lt),
    UInt16.ofNat_toNat]

end Subordination.Daemon
