import Mathlib.Data.List.Pairwise
import Subordination.Core.Outlines
import Subordination.Daemon.Configurations
import Subordination.Daemon.FactoryFlags
import Subordination.Daemon.InterfaceAddressLists
import Subordination.Library.Fields

/-!
# The properties of the daemon

What the properties of the daemon are, and how they are set (`Properties::property`, `daemon/factory.cc`, and `set` of
the properties of its pipelines, of the discoverer and of the transaction log).

## The model

A number that has been checked is a number with its bounds. A duration is a number of nanoseconds, without overflow.
How masks of processors and addresses are read is a parameter, as these classes are not in the repository, and so are
the texts of exceptions that other readers throw. The working directory of GlusterFS is left out, as it is when the
daemon is built without it. There are no null characters in keys and values, as a line ends at the first one, so that
strings are compared where the source compares characters up to a null.

## What is proved

* **`properties_determined`**: the properties that have been read, whatever files they come from and whatever order
  they come in, are determined by the last value of each key.
-/

namespace Subordination.Daemon.Configuration

open Subordination.Core Subordination.Core.Properties Subordination.Core.Resources Subordination.Library

/-! ### Values -/

/-- A number between two bounds. -/
abbrev Bounded (least most : ℕ) := {n : ℕ // least ≤ n ∧ n ≤ most}

/-- `std::numeric_limits<int>::max()`. -/
def intMax : ℕ := 2 ^ 31 - 1

/-- `std::numeric_limits<sys::u32>::max()`. -/
def u32Max : ℕ := 2 ^ 32 - 1

/-- `std::out_of_range("out of range")`. -/
def outOfRange : List UInt8 := ascii "out of range".toList

/-- `std::stoi`, and `what()` of its exceptions. -/
def stoi (s : List UInt8) : Except (List UInt8) ℤ :=
  match stol s with
  | .ok (v, _) => if v < -2 ^ 31 ∨ 2 ^ 31 ≤ v then .error (ascii "stoi".toList) else .ok v
  | .error _ => .error (ascii "stoi".toList)

/-- `std::stoul`, and the number of characters it has taken. A number with a minus wraps. -/
def stoul (s : List UInt8) : Except (List UInt8) (UInt64 × ℕ) :=
  let unspaced := s.dropWhile isSpace
  let negative := unspaced.head? = some 45
  let unsigned := if negative ∨ unspaced.head? = some 43 then unspaced.tail else unspaced
  let digits := unsigned.takeWhile isDigit
  let value := UInt64.ofNat (ofDigits digits).toNat
  if digits = [] ∨ 2 ^ 64 ≤ ofDigits digits then .error (ascii "stoul".toList)
  else .ok (if negative then -value else value, s.length - unsigned.length + digits.length)

/-- A number of threads: `std::stoi`, and a check. -/
def readThreads (least : ℕ) (s : List UInt8) : Except (List UInt8) (Bounded least intMax) := do
  let n ← stoi s
  if h : least ≤ n.toNat ∧ n.toNat ≤ intMax ∧ 0 ≤ n then return ⟨n.toNat, h.1, h.2.1⟩ else throw outOfRange

/-- The size of a buffer. -/
def readSize (s : List UInt8) : Except (List UInt8) UInt64 := Prod.fst <$> stoul s

/-- `std::stoul`, and a check. -/
def readBounded (least most : ℕ) (s : List UInt8) : Except (List UInt8) (Bounded least most) := do
  let v ← readSize s
  if h : least ≤ v.toNat ∧ v.toNat ≤ most then return ⟨v.toNat, h⟩ else throw outOfRange

/-- `std::tolower`. -/
def toLower (c : UInt8) : UInt8 := if 65 ≤ c ∧ c ≤ 90 then c + 32 else c

/-- `string_to_bool`. -/
def stringToBool (s : List UInt8) : Except (List UInt8) Bool :=
  let s := (trim isSpace s).map toLower
  if s ∈ ["1", "yes", "on", "true"].map (ascii ·.toList) then .ok true
  else if s ∈ ["0", "no", "off", "false"].map (ascii ·.toList) then .ok false
  else .error (ascii "bad boolean".toList)

/-- The nanoseconds of a unit. -/
def nanoseconds (suffix : List UInt8) : Option ℤ :=
  if suffix = ascii ['n', 's'] then some 1
  else if suffix = ascii ['u', 's'] then some (10 ^ 3)
  else if suffix = ascii ['m', 's'] then some (10 ^ 6)
  else if suffix = ascii ['s'] ∨ suffix = [] then some (10 ^ 9)
  else if suffix = ascii ['m'] then some (60 * 10 ^ 9)
  else if suffix = ascii ['h'] then some (60 * 60 * 10 ^ 9)
  else if suffix = ascii ['d'] then some (24 * 60 * 60 * 10 ^ 9)
  else none

/-- `string_to_duration`. -/
def stringToDuration (s : List UInt8) : Except (List UInt8) ℤ := do
  let s := trim isSpace s
  let (value, i) ← stoul s
  match nanoseconds (s.drop i) with
  | some n => return value.toInt64.toInt * n
  | none => throw (ascii "unknown duration suffix \"".toList ++ s.drop i ++ ascii ['"'])

/-- What is used of classes that are not in the repository. -/
structure Formats (Cpus A : Type) where
  /-- `operator>>` of `sys::cpu_set`: what a mask is after a stream with these characters has been read into it. -/
  cpus : List UInt8 → Option Cpus
  /-- `sys::interface_address<sys::ipv4_address>`. -/
  address : AddressFormat A
  /-- `what()`. -/
  what : Exception → List UInt8

/-! ### The properties -/

/-- `parallel_pipeline::properties`. -/
structure ParallelPipelineProperties (Cpus : Type) where
  /-- `upstream_cpus`. -/
  upstreamCpus : Cpus
  /-- `downstream_cpus`. -/
  downstreamCpus : Cpus
  /-- `timer_cpus`. -/
  timerCpus : Cpus
  /-- `kernel_cpus`. -/
  kernelCpus : Cpus
  /-- `num_downstream_threads`. -/
  numDownstreamThreads : Bounded 0 intMax
  /-- `num_upstream_threads`. -/
  numUpstreamThreads : Bounded 1 intMax

/-- `basic_socket_pipeline::properties`. -/
structure BasicSocketPipelineProperties (Cpus : Type) where
  /-- `cpus`. -/
  cpus : Cpus
  /-- `min_output_buffer_size`. -/
  minOutputBufferSize : UInt64
  /-- `min_input_buffer_size`. -/
  minInputBufferSize : UInt64

/-- `socket_pipeline::properties`. -/
structure SocketPipelineProperties (Cpus : Type) extends BasicSocketPipelineProperties Cpus where
  /-- `max_connection_attempts`. -/
  maxConnectionAttempts : Bounded 0 u32Max
  /-- `connection_timeout`. -/
  connectionTimeout : ℤ
  /-- `route`. -/
  route : Bool

/-- `process_pipeline::properties`. -/
structure ProcessPipelineProperties (Cpus : Type) extends BasicSocketPipelineProperties Cpus where
  /-- `pipe_buffer_size`. -/
  pipeBufferSize : UInt64
  /-- `allow_root`. -/
  allowRoot : Bool
  /-- `interleave`. -/
  interleave : Bool

/-- `discoverer::properties`. -/
structure DiscovererProperties where
  /-- `scan_interval`. -/
  scanInterval : ℤ
  /-- `cache_directory`. -/
  cacheDirectory : List UInt8
  /-- `fanout`. -/
  fanout : Bounded 1 u32Max
  /-- `max_attempts`. -/
  maxAttempts : Bounded 1 intMax
  /-- `max_radius`. -/
  maxRadius : Bounded 1 intMax
  /-- `profile`. -/
  profile : Bool

/-- `transaction_log::properties`. -/
structure TransactionLogProperties where
  /-- `directory`. -/
  directory : List UInt8
  /-- `recover_after`. -/
  recoverAfter : ℤ

/-- The member `network` of `Properties`. -/
structure NetworkProperties (A : Type) where
  /-- `allowed_interface_addresses`. -/
  allowedInterfaceAddresses : List A
  /-- `interface_update_interval`. -/
  interfaceUpdateInterval : ℤ

/-- `Properties`. -/
structure DaemonProperties (Cpus A : Type) where
  /-- `local`. -/
  localPipeline : ParallelPipelineProperties Cpus
  /-- `remote`. -/
  remote : SocketPipelineProperties Cpus
  /-- `process`. -/
  process : ProcessPipelineProperties Cpus
  /-- `unix`. -/
  unix : BasicSocketPipelineProperties Cpus
  /-- `factory.flags`. -/
  flags : UInt32
  /-- `transactions`. -/
  transactions : TransactionLogProperties
  /-- `network`. -/
  network : NetworkProperties A
  /-- `discover`. -/
  discover : DiscovererProperties
  /-- `resources.expressions`. -/
  expressions : List UInt8 → Option Expression

/-- `Properties::Properties`, with the mask of the processors of the process and their number, the size of a page, and
`SBND_SHARED_STATE_DIR`. -/
def DaemonProperties.initial {Cpus A : Type} (cpus : Cpus) (count : Bounded 1 intMax) (pageSize : UInt64)
    (stateDirectory : List UInt8) : DaemonProperties Cpus A where
  localPipeline :=
    { upstreamCpus := cpus, downstreamCpus := cpus, timerCpus := cpus, kernelCpus := cpus
      numDownstreamThreads := ⟨0, by decide⟩, numUpstreamThreads := count }
  remote :=
    { cpus, minOutputBufferSize := pageSize * 52, minInputBufferSize := pageSize * 52
      maxConnectionAttempts := ⟨1, by decide⟩, connectionTimeout := 7 * 10 ^ 9, route := false }
  process :=
    { cpus, minOutputBufferSize := pageSize * 16, minInputBufferSize := pageSize * 16
      pipeBufferSize := pageSize * 16, allowRoot := false, interleave := false }
  unix := { cpus, minOutputBufferSize := pageSize * 16, minInputBufferSize := pageSize * 16 }
  flags := FactoryFlag.all.value
  transactions := { directory := stateDirectory, recoverAfter := 0 }
  network := { allowedInterfaceAddresses := [], interfaceUpdateInterval := 60 * 10 ^ 9 }
  discover :=
    { scanInterval := 60 * 10 ^ 9, cacheDirectory := stateDirectory, fanout := ⟨64, by decide⟩
      maxAttempts := ⟨1, by decide⟩, maxRadius := ⟨100, by decide⟩, profile := false }
  expressions _ := none

/-! ### How they are set -/

/-- A branch of `set`: the key, how the value is read, and what is set to it. -/
structure Setting (P : Type) where
  /-- The key. -/
  key : List UInt8
  /-- What is set. -/
  {α : Type}
  /-- The value, or `what()` of the exception. -/
  read : List UInt8 → Except (List UInt8) α
  /-- Where it is. -/
  field : Field P α

/-- A field of a field is set. -/
def Setting.within {P Q : Type} (s : Setting Q) (field : Field P Q) : Setting P where
  key := s.key
  read := s.read
  field := field.comp s.field

/-- It has a longer key there. -/
def Setting.under {P Q : Type} (s : Setting Q) (beginning : List UInt8) (field : Field P Q) : Setting P where
  key := beginning ++ s.key
  read := s.read
  field := field.comp s.field

/-- `set`: the change of the properties that the branch with the key makes, if there is one. -/
def change {P : Type} (settings : List (Setting P)) (key value : List UInt8) :
    Except (List UInt8) (Option (P → P)) :=
  match settings.find? (·.key = key) with
  | none => .ok none
  | some s => (fun a => some fun p => s.field.set p a) <$> s.read value

/-- `set_if_prefix`. -/
def setIfPrefix {P Q : Type} (beginning : List UInt8) (field : Field P Q) (settings : List (Setting Q))
    (key value : List UInt8) : Except (List UInt8) (Option (P → P)) :=
  if key.take beginning.length = beginning then
    change (settings.map (·.within field)) (key.drop beginning.length) value
  else .ok none

/-- `else if`: the branch is taken if the key has not been found before. -/
def elseIf {P : Type} (found rest : Except (List UInt8) (Option (P → P))) : Except (List UInt8) (Option (P → P)) :=
  match found with
  | .ok none => rest
  | _ => found

section Sets

variable {Cpus A : Type} (formats : Formats Cpus A)

/-- A mask of processors: `operator>>`, and a check of the stream. -/
def readCpus (s : List UInt8) : Except (List UInt8) Cpus :=
  match formats.cpus s with
  | some cpus => .ok cpus
  | none => .error (ascii "bad cpu mask".toList)

/-- `parallel_pipeline::properties::set`. -/
def parallelPipelineSettings : List (Setting (ParallelPipelineProperties Cpus)) :=
  [{ key := ascii "num-upstream-threads".toList, read := readThreads 1
     field := { get := (·.numUpstreamThreads), set := fun p n => { p with numUpstreamThreads := n } } },
    { key := ascii "num-downstream-threads".toList, read := readThreads 0
      field := { get := (·.numDownstreamThreads), set := fun p n => { p with numDownstreamThreads := n } } },
    { key := ascii "upstream-cpus".toList, read := readCpus formats
      field := { get := (·.upstreamCpus), set := fun p cpus => { p with upstreamCpus := cpus } } },
    { key := ascii "downstream-cpus".toList, read := readCpus formats
      field := { get := (·.downstreamCpus), set := fun p cpus => { p with downstreamCpus := cpus } } },
    { key := ascii "timer-cpus".toList, read := readCpus formats
      field := { get := (·.timerCpus), set := fun p cpus => { p with timerCpus := cpus } } },
    { key := ascii "kernel-cpus".toList, read := readCpus formats
      field := { get := (·.kernelCpus), set := fun p cpus => { p with kernelCpus := cpus } } }]

/-- `basic_socket_pipeline::properties::set`. -/
def basicSocketPipelineSettings : List (Setting (BasicSocketPipelineProperties Cpus)) :=
  [{ key := ascii "min-input-buffer-size".toList, read := readSize
     field := { get := (·.minInputBufferSize), set := fun p n => { p with minInputBufferSize := n } } },
    { key := ascii "min-output-buffer-size".toList, read := readSize
      field := { get := (·.minOutputBufferSize), set := fun p n => { p with minOutputBufferSize := n } } }]

/-- `socket_pipeline::properties::set`. -/
def socketPipelineSettings : List (Setting (SocketPipelineProperties Cpus)) :=
  basicSocketPipelineSettings.map (·.within
    { get := (·.toBasicSocketPipelineProperties)
      set := fun p basic => { p with toBasicSocketPipelineProperties := basic } }) ++
  [{ key := ascii "max-connection-attempts".toList, read := readBounded 0 u32Max
     field := { get := (·.maxConnectionAttempts), set := fun p n => { p with maxConnectionAttempts := n } } },
    { key := ascii "connection-timeout".toList, read := stringToDuration
      field := { get := (·.connectionTimeout), set := fun p d => { p with connectionTimeout := d } } },
    { key := ascii "route".toList, read := stringToBool
      field := { get := (·.route), set := fun p b => { p with route := b } } }]

/-- `process_pipeline::properties::set`. -/
def processPipelineSettings : List (Setting (ProcessPipelineProperties Cpus)) :=
  basicSocketPipelineSettings.map (·.within
    { get := (·.toBasicSocketPipelineProperties)
      set := fun p basic => { p with toBasicSocketPipelineProperties := basic } }) ++
  [{ key := ascii "pipe-buffer-size".toList, read := readSize
     field := { get := (·.pipeBufferSize), set := fun p n => { p with pipeBufferSize := n } } },
    { key := ascii "allow-root".toList, read := stringToBool
      field := { get := (·.allowRoot), set := fun p b => { p with allowRoot := b } } },
    { key := ascii "interleave".toList, read := stringToBool
      field := { get := (·.interleave), set := fun p b => { p with interleave := b } } }]

/-- `discoverer::properties::set`. -/
def discovererSettings : List (Setting DiscovererProperties) :=
  [{ key := ascii "scan-interval".toList, read := stringToDuration
     field := { get := (·.scanInterval), set := fun p d => { p with scanInterval := d } } },
    { key := ascii "fanout".toList, read := readBounded 1 u32Max
      field := { get := (·.fanout), set := fun p n => { p with fanout := n } } },
    { key := ascii "max-attempts".toList, read := readBounded 1 intMax
      field := { get := (·.maxAttempts), set := fun p n => { p with maxAttempts := n } } },
    { key := ascii "max-radius".toList, read := readBounded 1 intMax
      field := { get := (·.maxRadius), set := fun p n => { p with maxRadius := n } } },
    { key := ascii "cache-directory".toList, read := .ok
      field := { get := (·.cacheDirectory), set := fun p s => { p with cacheDirectory := s } } },
    { key := ascii "profile".toList, read := stringToBool
      field := { get := (·.profile), set := fun p b => { p with profile := b } } }]

/-- `transaction_log::properties::set`. -/
def transactionLogSettings : List (Setting TransactionLogProperties) :=
  [{ key := ascii "directory".toList, read := .ok
     field := { get := (·.directory), set := fun p s => { p with directory := s } } },
    { key := ascii "recover-after".toList, read := stringToDuration
      field := { get := (·.recoverAfter), set := fun p d => { p with recoverAfter := d } } }]

/-! ### The daemon -/

/-- The fields of `Properties`. -/
inductive Part where
  | localPipeline
  | remote
  | process
  | unix
  | discover
  | transactions
  | flags
  | network
  | expressions
  deriving DecidableEq, Repr

/-- The type of a field. -/
def Part.Value (Cpus A : Type) : Part → Type
  | localPipeline => ParallelPipelineProperties Cpus
  | remote => SocketPipelineProperties Cpus
  | process => ProcessPipelineProperties Cpus
  | unix => BasicSocketPipelineProperties Cpus
  | discover => DiscovererProperties
  | transactions => TransactionLogProperties
  | flags => UInt32
  | network => NetworkProperties A
  | expressions => List UInt8 → Option Expression

/-- The field. -/
def Part.field : (i : Part) → Field (DaemonProperties Cpus A) (i.Value Cpus A)
  | localPipeline => { get := (·.localPipeline), set := fun p x => { p with localPipeline := x } }
  | remote => { get := (·.remote), set := fun p x => { p with remote := x } }
  | process => { get := (·.process), set := fun p x => { p with process := x } }
  | unix => { get := (·.unix), set := fun p x => { p with unix := x } }
  | discover => { get := (·.discover), set := fun p x => { p with discover := x } }
  | transactions => { get := (·.transactions), set := fun p x => { p with transactions := x } }
  | flags => { get := (·.flags), set := fun p x => { p with flags := x } }
  | network => { get := (·.network), set := fun p x => { p with network := x } }
  | expressions => { get := (·.expressions), set := fun p x => { p with expressions := x } }

/-- `key == "factory.flags"`. -/
def flagsSetting : Setting (DaemonProperties Cpus A) where
  key := ascii "factory.flags".toList
  read s := (stringToFactoryFlags s).mapError formats.what
  field := Part.field .flags

/-- `key == "network.allowed-interface-addresses"`, and `key == "network.interface-update-interval"`. -/
def networkSettings : List (Setting (DaemonProperties Cpus A)) :=
  [{ key := ascii "network.allowed-interface-addresses".toList
     read := fun s => .ok (stringToInterfaceAddressList formats.address s)
     field := (Part.field .network).comp
       { get := (·.allowedInterfaceAddresses), set := fun p x => { p with allowedInterfaceAddresses := x } } },
    { key := ascii "network.interface-update-interval".toList
      read := stringToDuration
      field := (Part.field .network).comp
        { get := (·.interfaceUpdateInterval), set := fun p d => { p with interfaceUpdateInterval := d } } }]

/-- `"resources."`. -/
def resourcesPrefix : List UInt8 := ascii "resources.".toList

/-- `resources.expressions[name]`. -/
def resourceSetting (name : List UInt8) : Setting (DaemonProperties Cpus A) where
  key := resourcesPrefix ++ name
  read s := some <$> (resourceProperty name s).mapError formats.what
  field := (Part.field .expressions).comp (Field.atKey name)

/-- The branches of `Properties::property`, but for `config`. -/
def set (key value : List UInt8) : Except (List UInt8) (Option (DaemonProperties Cpus A → DaemonProperties Cpus A)) :=
  elseIf (setIfPrefix (ascii "local.".toList) (Part.field .localPipeline) (parallelPipelineSettings formats) key
    value) <|
  elseIf (setIfPrefix (ascii "remote.".toList) (Part.field .remote) socketPipelineSettings key value) <|
  elseIf (setIfPrefix (ascii "process.".toList) (Part.field .process) processPipelineSettings key value) <|
  elseIf (setIfPrefix (ascii "unix.".toList) (Part.field .unix) basicSocketPipelineSettings key value) <|
  elseIf (setIfPrefix (ascii "discoverer.".toList) (Part.field .discover) discovererSettings key value) <|
  elseIf (setIfPrefix (ascii "transactions.".toList) (Part.field .transactions) transactionLogSettings key value) <|
  elseIf (change [flagsSetting formats] key value) <|
  elseIf (change (networkSettings formats) key value) <|
  if key.take 10 = resourcesPrefix then change [resourceSetting formats (key.drop 10)] key value else .ok none

/-- `Properties::property`, but for `config`. -/
def setProperty : Property (DaemonProperties Cpus A) := fun p key value =>
  match set formats key value with
  | .ok (some f) => (f p, none)
  | .ok none => (p, some (ascii "unknown property".toList))
  | .error what => (p, some what)

/-! ### What is set -/

/-- The settings of a field, with their whole keys. -/
inductive IsSetting : Part → Setting (DaemonProperties Cpus A) → Prop
  | localPipeline {s : Setting (ParallelPipelineProperties Cpus)} : s ∈ parallelPipelineSettings formats →
      IsSetting .localPipeline (s.under (ascii "local.".toList) (Part.field .localPipeline))
  | remote {s : Setting (SocketPipelineProperties Cpus)} : s ∈ socketPipelineSettings →
      IsSetting .remote (s.under (ascii "remote.".toList) (Part.field .remote))
  | process {s : Setting (ProcessPipelineProperties Cpus)} : s ∈ processPipelineSettings →
      IsSetting .process (s.under (ascii "process.".toList) (Part.field .process))
  | unix {s : Setting (BasicSocketPipelineProperties Cpus)} : s ∈ basicSocketPipelineSettings →
      IsSetting .unix (s.under (ascii "unix.".toList) (Part.field .unix))
  | discover {s : Setting DiscovererProperties} : s ∈ discovererSettings →
      IsSetting .discover (s.under (ascii "discoverer.".toList) (Part.field .discover))
  | transactions {s : Setting TransactionLogProperties} : s ∈ transactionLogSettings →
      IsSetting .transactions (s.under (ascii "transactions.".toList) (Part.field .transactions))
  | flags : IsSetting .flags (flagsSetting formats)
  | network {s : Setting (DaemonProperties Cpus A)} : s ∈ networkSettings formats → IsSetting .network s
  | expressions (name : List UInt8) : IsSetting .expressions (resourceSetting formats name)

end Sets

section Makes

variable {P Q : Type} {key value beginning : List UInt8} {f : P → P} {s s' : Setting P}

/-- A setting makes a change. -/
def Setting.Makes (s : Setting P) (key value : List UInt8) (f : P → P) : Prop :=
  s.key = key ∧ ∃ a, s.read value = .ok a ∧ f = fun p => s.field.set p a

/-- Two settings have different keys, and their fields have nothing in common. -/
def Setting.Distinct (s s' : Setting P) : Prop := s.key ≠ s'.key ∧ s.field.Apart s'.field

theorem Setting.Distinct.symm (h : s.Distinct s') : s'.Distinct s := ⟨h.1.symm, h.2.symm⟩

instance : Std.Symm (@Setting.Distinct P) := ⟨fun _ _ h => h.symm⟩

theorem eq_or_distinct {settings : List (Setting P)} (h : settings.Pairwise Setting.Distinct) (hs : s ∈ settings)
    (hs' : s' ∈ settings) : s = s' ∨ s.Distinct s' :=
  or_iff_not_imp_left.2 fun hne => h.forall hs hs' hne

theorem exists_of_change {settings : List (Setting P)} (h : change settings key value = .ok (some f)) :
    ∃ s ∈ settings, s.Makes key value f := by
  rw [change] at h
  split at h
  · cases h
  · next s hfind =>
    refine ⟨s, List.mem_of_find?_eq_some hfind, by simpa using List.find?_some hfind, ?_⟩
    cases hread : s.read value with
    | error what =>
      rw [hread] at h
      cases h
    | ok a =>
      rw [hread] at h
      cases h
      exact ⟨a, rfl, rfl⟩

theorem exists_of_setIfPrefix {field : Field P Q} {settings : List (Setting Q)}
    (h : setIfPrefix beginning field settings key value = .ok (some f)) :
    ∃ s ∈ settings, (s.under beginning field).Makes key value f := by
  rw [setIfPrefix] at h
  split at h
  · next hbeginning =>
    obtain ⟨s', hs', hkey, hread⟩ := exists_of_change h
    obtain ⟨s, hs, rfl⟩ := List.mem_map.1 hs'
    refine ⟨s, hs, ?_, hread⟩
    show beginning ++ s.key = key
    rw [← List.take_append_drop beginning.length key, hbeginning, ← hkey]
    rfl
  · cases h

theorem or_of_elseIf {found rest : Except (List UInt8) (Option (P → P))} (h : elseIf found rest = .ok (some f)) :
    found = .ok (some f) ∨ rest = .ok (some f) := by
  unfold elseIf at h
  split at h
  · exact Or.inr h
  · exact Or.inl h

/-- Settings of one field are as distinct as they are there. -/
theorem Setting.Distinct.under {s s' : Setting Q} (h : s.Distinct s') (beginning : List UInt8) (field : Field P Q) :
    (s.under beginning field).Distinct (s'.under beginning field) :=
  ⟨fun heq => h.1 (List.append_cancel_left heq), h.2.within field⟩

end Makes

section Distinct

variable {Cpus A : Type} {formats : Formats Cpus A} {key value : List UInt8}

theorem pairwise_parallelPipelineSettings :
    (parallelPipelineSettings formats).Pairwise Setting.Distinct := by
  simp only [parallelPipelineSettings, List.pairwise_cons, List.forall_mem_cons]
  and_intros
  all_goals try first | exact .nil | exact fun _ _ _ => rfl | exact fun _ h => absurd h List.not_mem_nil
  all_goals show ascii _ ≠ ascii _; decide

theorem pairwise_basicSocketPipelineSettings :
    (@basicSocketPipelineSettings Cpus).Pairwise Setting.Distinct := by
  simp only [basicSocketPipelineSettings, List.pairwise_cons, List.forall_mem_cons]
  and_intros
  all_goals try first | exact .nil | exact fun _ _ _ => rfl | exact fun _ h => absurd h List.not_mem_nil
  all_goals show ascii _ ≠ ascii _; decide

theorem pairwise_socketPipelineSettings :
    (@socketPipelineSettings Cpus).Pairwise Setting.Distinct := by
  simp only [socketPipelineSettings, basicSocketPipelineSettings, List.map_cons, List.map_nil, List.cons_append,
    List.nil_append, List.pairwise_cons, List.forall_mem_cons]
  and_intros
  all_goals try first | exact .nil | exact fun _ _ _ => rfl | exact fun _ h => absurd h List.not_mem_nil
  all_goals show ascii _ ≠ ascii _; decide

theorem pairwise_processPipelineSettings :
    (@processPipelineSettings Cpus).Pairwise Setting.Distinct := by
  simp only [processPipelineSettings, basicSocketPipelineSettings, List.map_cons, List.map_nil, List.cons_append,
    List.nil_append, List.pairwise_cons, List.forall_mem_cons]
  and_intros
  all_goals try first | exact .nil | exact fun _ _ _ => rfl | exact fun _ h => absurd h List.not_mem_nil
  all_goals show ascii _ ≠ ascii _; decide

theorem pairwise_discovererSettings :
    (discovererSettings).Pairwise Setting.Distinct := by
  simp only [discovererSettings, List.pairwise_cons, List.forall_mem_cons]
  and_intros
  all_goals try first | exact .nil | exact fun _ _ _ => rfl | exact fun _ h => absurd h List.not_mem_nil
  all_goals show ascii _ ≠ ascii _; decide

theorem pairwise_transactionLogSettings :
    (transactionLogSettings).Pairwise Setting.Distinct := by
  simp only [transactionLogSettings, List.pairwise_cons, List.forall_mem_cons]
  and_intros
  all_goals try first | exact .nil | exact fun _ _ _ => rfl | exact fun _ h => absurd h List.not_mem_nil
  all_goals show ascii _ ≠ ascii _; decide

theorem pairwise_networkSettings :
    (networkSettings formats).Pairwise Setting.Distinct := by
  simp only [networkSettings, List.pairwise_cons, List.forall_mem_cons]
  and_intros
  all_goals try first | exact .nil | exact fun _ _ _ => rfl | exact fun _ h => absurd h List.not_mem_nil
  all_goals show ascii _ ≠ ascii _; decide

/-- What the keys of a field begin with. -/
def Part.beginning : Part → List UInt8
  | localPipeline => ascii ['l', 'o', 'c']
  | remote => ascii ['r', 'e', 'm']
  | process => ascii ['p', 'r', 'o']
  | unix => ascii ['u', 'n', 'i']
  | discover => ascii ['d', 'i', 's']
  | transactions => ascii ['t', 'r', 'a']
  | flags => ascii ['f', 'a', 'c']
  | network => ascii ['n', 'e', 't']
  | expressions => ascii ['r', 'e', 's']

theorem Part.beginning_injective : Function.Injective Part.beginning := by
  intro i j
  cases i <;> cases j <;> decide

theorem Part.apart {i j : Part} (h : i ≠ j) :
    (i.field : Field (DaemonProperties Cpus A) _).Apart (j.field : Field (DaemonProperties Cpus A) _) := by
  cases i <;> cases j <;> first | exact absurd rfl h | exact fun _ _ _ => rfl

variable {i j : Part} {s s' : Setting (DaemonProperties Cpus A)}

/-- A setting is in its field, and has a key for it. -/
theorem IsSetting.placed (h : IsSetting formats i s) :
    s.key.take 3 = i.beginning ∧ ∃ g : Field (i.Value Cpus A) s.α, s.field = (Part.field i).comp g := by
  cases h with
  | localPipeline _ => exact ⟨rfl, _, rfl⟩
  | remote _ => exact ⟨rfl, _, rfl⟩
  | process _ => exact ⟨rfl, _, rfl⟩
  | unix _ => exact ⟨rfl, _, rfl⟩
  | discover _ => exact ⟨rfl, _, rfl⟩
  | transactions _ => exact ⟨rfl, _, rfl⟩
  | flags => exact ⟨rfl, { get := id, set := fun _ x => x }, rfl⟩
  | network h =>
    rcases List.mem_pair.1 h with rfl | rfl
    · exact ⟨rfl, _, rfl⟩
    · exact ⟨rfl, _, rfl⟩
  | expressions name => exact ⟨rfl, _, rfl⟩

/-- **Settings are distinct**: they have different keys, and there is nothing that two of them set. -/
theorem IsSetting.eq_or_distinct (hs : IsSetting formats i s) (hs' : IsSetting formats j s') :
    s = s' ∨ s.Distinct s' := by
  rcases eq_or_ne i j with rfl | hne
  · have hunder {Q : Type} {settings : List (Setting Q)} (hpairwise : settings.Pairwise Setting.Distinct)
        {s s' : Setting Q} (hs : s ∈ settings) (hs' : s' ∈ settings) (beginning : List UInt8)
        (field : Field (DaemonProperties Cpus A) Q) :
        s.under beginning field = s'.under beginning field ∨
          (s.under beginning field).Distinct (s'.under beginning field) :=
      (Configuration.eq_or_distinct hpairwise hs hs').imp (fun heq => by rw [heq]) fun h => h.under beginning field
    cases hs with
    | localPipeline hs =>
      cases hs' with | localPipeline hs' => exact hunder pairwise_parallelPipelineSettings hs hs' ..
    | remote hs => cases hs' with | remote hs' => exact hunder pairwise_socketPipelineSettings hs hs' ..
    | process hs => cases hs' with | process hs' => exact hunder pairwise_processPipelineSettings hs hs' ..
    | unix hs => cases hs' with | unix hs' => exact hunder pairwise_basicSocketPipelineSettings hs hs' ..
    | discover hs => cases hs' with | discover hs' => exact hunder pairwise_discovererSettings hs hs' ..
    | transactions hs => cases hs' with | transactions hs' => exact hunder pairwise_transactionLogSettings hs hs' ..
    | flags => cases hs' with | flags => exact Or.inl rfl
    | network hs => cases hs' with | network hs' => exact Configuration.eq_or_distinct pairwise_networkSettings hs hs'
    | expressions name => cases hs' with | expressions name' =>
      rcases eq_or_ne name name' with rfl | hname
      · exact Or.inl rfl
      · exact Or.inr ⟨fun heq => hname (List.append_cancel_left heq), (Field.apart_atKey hname).within _⟩
  · obtain ⟨hkey, g, hfield⟩ := hs.placed
    obtain ⟨hkey', g', hfield'⟩ := hs'.placed
    refine Or.inr ⟨fun heq => hne (Part.beginning_injective ?_), ?_⟩
    · rw [← hkey, ← hkey', heq]
    · rw [hfield, hfield']
      exact (Part.apart hne).comp g g'

/-- A change that is made is made by a setting. -/
theorem exists_of_set {f : DaemonProperties Cpus A → DaemonProperties Cpus A}
    (h : set formats key value = .ok (some f)) : ∃ i s, IsSetting formats i s ∧ s.Makes key value f := by
  rw [set] at h
  rcases or_of_elseIf h with h | h
  · obtain ⟨s, hs, hmakes⟩ := exists_of_setIfPrefix h
    exact ⟨_, _, .localPipeline hs, hmakes⟩
  rcases or_of_elseIf h with h | h
  · obtain ⟨s, hs, hmakes⟩ := exists_of_setIfPrefix h
    exact ⟨_, _, .remote hs, hmakes⟩
  rcases or_of_elseIf h with h | h
  · obtain ⟨s, hs, hmakes⟩ := exists_of_setIfPrefix h
    exact ⟨_, _, .process hs, hmakes⟩
  rcases or_of_elseIf h with h | h
  · obtain ⟨s, hs, hmakes⟩ := exists_of_setIfPrefix h
    exact ⟨_, _, .unix hs, hmakes⟩
  rcases or_of_elseIf h with h | h
  · obtain ⟨s, hs, hmakes⟩ := exists_of_setIfPrefix h
    exact ⟨_, _, .discover hs, hmakes⟩
  rcases or_of_elseIf h with h | h
  · obtain ⟨s, hs, hmakes⟩ := exists_of_setIfPrefix h
    exact ⟨_, _, .transactions hs, hmakes⟩
  rcases or_of_elseIf h with h | h
  · obtain ⟨s, hs, hmakes⟩ := exists_of_change h
    exact ⟨_, _, .flags, List.mem_singleton.1 hs ▸ hmakes⟩
  rcases or_of_elseIf h with h | h
  · obtain ⟨s, hs, hmakes⟩ := exists_of_change h
    exact ⟨_, _, .network hs, hmakes⟩
  split at h
  · obtain ⟨s, hs, hmakes⟩ := exists_of_change h
    exact ⟨_, _, .expressions _, List.mem_singleton.1 hs ▸ hmakes⟩
  · cases h

end Distinct

/-! ### What the properties are in the end -/

section Last

variable {Cpus A : Type} {formats : Formats Cpus A} {key value : List UInt8} {entries entries' : List Entry}
  {p p' : DaemonProperties Cpus A}

/-- The pairs of some entries. -/
def pairsOf (entries : List Entry) : List (List UInt8 × List UInt8) :=
  entries.filterMap fun
    | .pair _ key value => some (key, value)
    | .fault _ => none

/-- The change that a pair makes, if it makes one. -/
def changeOf (formats : Formats Cpus A) (key value : List UInt8) (p : DaemonProperties Cpus A) :
    DaemonProperties Cpus A := (setProperty formats p key value).1

/-- A pair makes a change. -/
def Accepted (formats : Formats Cpus A) (key value : List UInt8) : Prop :=
  ∃ f, set formats key value = .ok (some f)

theorem setProperty_of_set {f : DaemonProperties Cpus A → DaemonProperties Cpus A}
    (h : set formats key value = .ok (some f)) : setProperty formats p key value = (f p, none) := by
  rw [setProperty, h]

theorem accepted_of_setProperty (h : (setProperty formats p key value).2 = none) : Accepted formats key value := by
  rw [setProperty] at h
  split at h
  · next f hset => exact ⟨f, hset⟩
  · cases h
  · cases h

/-- A pair sets a field to a value, whatever the properties are. -/
theorem Accepted.exists_setting (h : Accepted formats key value) :
    ∃ (i : Part) (s : Setting (DaemonProperties Cpus A)) (a : s.α), IsSetting formats i s ∧ s.key = key ∧
      ∀ p, changeOf formats key value p = s.field.set p a := by
  obtain ⟨f, hset⟩ := h
  obtain ⟨i, s, hs, hkey, a, -, rfl⟩ := exists_of_set hset
  exact ⟨i, s, a, hs, hkey, fun p => by rw [changeOf, setProperty_of_set hset]⟩

/-- Without an exception, all pairs make their changes. -/
theorem performEntries_eq (h : performEntries (setProperty formats) p entries = (p', none)) :
    (∀ x ∈ pairsOf entries, Accepted formats x.1 x.2) ∧
      p' = (pairsOf entries).foldl (fun p x => changeOf formats x.1 x.2 p) p := by
  induction entries generalizing p with
  | nil =>
    cases h
    exact ⟨fun _ hx => absurd hx List.not_mem_nil, rfl⟩
  | cons entry entries ih =>
    cases entry with
    | fault what => cases h
    | pair places key value =>
      rw [performEntries] at h
      rcases hset : setProperty formats p key value with ⟨p₁, _ | what⟩
      · rw [hset] at h
        obtain ⟨haccepted, hfold⟩ := ih h
        refine ⟨List.forall_mem_cons.2 ⟨accepted_of_setProperty (congrArg Prod.snd hset), haccepted⟩, ?_⟩
        have hchange : changeOf formats key value p = p₁ := congrArg Prod.fst hset
        rw [hfold, ← hchange]
        rfl
      · rw [hset] at h
        cases h

/-- Entries with the same last value of each key make the same properties. -/
theorem eq_of_lastOf {p₀ : DaemonProperties Cpus A} (h : performEntries (setProperty formats) p₀ entries = (p, none))
    (h' : performEntries (setProperty formats) p₀ entries' = (p', none))
    (hlast : ∀ key, lastOf key (pairsOf entries) = lastOf key (pairsOf entries')) : p = p' := by
  obtain ⟨haccepted, rfl⟩ := performEntries_eq h
  obtain ⟨haccepted', rfl⟩ := performEntries_eq h'
  refine foldl_eq_of_lastOf ?_ ?_ haccepted haccepted' hlast p₀
  · -- a field is set to the later value
    intro key value value' p hvalue hvalue'
    obtain ⟨i, s, a, hs, hkey, hchange⟩ := hvalue.exists_setting
    obtain ⟨j, s', a', hs', hkey', hchange'⟩ := hvalue'.exists_setting
    obtain rfl : s = s' := (hs.eq_or_distinct hs').resolve_right fun h => h.1 (hkey.trans hkey'.symm)
    rw [hchange, hchange', s.field.set_set, hchange']
  · -- two fields have nothing in common
    intro key key' value value' p hvalue hvalue' hne
    obtain ⟨i, s, a, hs, hkey, hchange⟩ := hvalue.exists_setting
    obtain ⟨j, s', a', hs', hkey', hchange'⟩ := hvalue'.exists_setting
    have hdistinct : s.Distinct s' := by
      refine (hs.eq_or_distinct hs').resolve_left fun heq => hne ?_
      rw [← hkey, ← hkey', heq]
    rw [hchange', hchange, hchange, hchange', hdistinct.2]

/-- **The properties that have been read** are determined by the last value of each key, whichever files it comes from
and in whatever order the keys come. -/
theorem properties_determined {files files' : Files} {limit limit' : ℕ} {argv argv' : List (List UInt8)}
    {p₀ : DaemonProperties Cpus A} (hnul : ∀ s ∈ argv.tail, 0 ∉ s) (hnul' : ∀ s ∈ argv'.tail, 0 ∉ s)
    (h : readArguments (property files (setProperty formats) limit) p₀ argv = some (p, none))
    (h' : readArguments (property files' (setProperty formats) limit') p₀ argv' = some (p', none))
    (hlast : ∀ key, lastOf key (pairsOf (argumentEntries files limit argv)) =
      lastOf key (pairsOf (argumentEntries files' limit' argv'))) : p = p' := by
  have hperform {files : Files} {limit : ℕ} {argv : List (List UInt8)} {p : DaemonProperties Cpus A}
      (hnul : ∀ s ∈ argv.tail, 0 ∉ s)
      (h : readArguments (property files (setProperty formats) limit) p₀ argv = some (p, none)) :
      performEntries (setProperty formats) p₀ (argumentEntries files limit argv) = (p, none) := by
    rw [readArguments_eq _ _ hnul, Option.some.injEq] at h
    rw [argumentEntries, performWords_eq, h]
    rfl
  exact eq_of_lastOf (hperform hnul h) (hperform hnul' h') hlast

/-- Masks as they are, addresses with dots, and no texts of exceptions. -/
def dottedFormats : Formats (List UInt8) DottedAddress where
  cpus := some
  address := DottedAddress.format
  what _ := []

/-- The properties of a daemon on one processor. -/
def oneProcessor : DaemonProperties (List UInt8) DottedAddress := .initial (ascii ['1']) ⟨1, by decide⟩ 4096 []

/-- A file, and an argument with the same properties in another order, one of them twice. -/
theorem properties_determined_file :
    ∃ p, readArguments (property routeFiles (setProperty dottedFormats) 1) oneProcessor
          [ascii "sbnd".toList, ascii "config=c".toList] = some (p, none) ∧
      readArguments (property (fun _ => none) (setProperty dottedFormats) 0) oneProcessor
          [ascii "sbnd".toList, ascii "discoverer.fanout=3 discoverer.fanout=2 remote.route=1".toList] =
        some (p, none) := by
  have hnul : ∀ s ∈ [ascii "sbnd".toList, ascii "config=c".toList].tail, 0 ∉ s := by decide
  have hnul' : ∀ s ∈ [ascii "sbnd".toList,
      ascii "discoverer.fanout=3 discoverer.fanout=2 remote.route=1".toList].tail, 0 ∉ s := by decide
  obtain ⟨p, h⟩ : ∃ p, readArguments (property routeFiles (setProperty dottedFormats) 1) oneProcessor
      [ascii "sbnd".toList, ascii "config=c".toList] = some (p, none) := ⟨_, readArguments_eq _ _ hnul⟩
  obtain ⟨p', h'⟩ : ∃ p, readArguments (property (fun _ => none) (setProperty dottedFormats) 0) oneProcessor
      [ascii "sbnd".toList, ascii "discoverer.fanout=3 discoverer.fanout=2 remote.route=1".toList] = some (p, none) :=
    ⟨_, readArguments_eq _ _ hnul'⟩
  have hpairs : pairsOf (argumentEntries routeFiles 1 [ascii "sbnd".toList, ascii "config=c".toList]) =
      [(ascii "remote.route".toList, ascii ['1']), (ascii "discoverer.fanout".toList, ascii ['2'])] := by decide
  have hpairs' : pairsOf (argumentEntries (fun _ => none) 0 [ascii "sbnd".toList,
      ascii "discoverer.fanout=3 discoverer.fanout=2 remote.route=1".toList]) =
        [(ascii "discoverer.fanout".toList, ascii ['3']), (ascii "discoverer.fanout".toList, ascii ['2']),
          (ascii "remote.route".toList, ascii ['1'])] := by decide
  have hne : ascii "discoverer.fanout".toList ≠ ascii "remote.route".toList := by decide
  obtain rfl : p = p' := by
    refine properties_determined hnul hnul' h h' fun key => ?_
    rw [hpairs, hpairs']
    simp only [lastOf, Option.none_or]
    split_ifs with hfanout hroute hroute
    · exact absurd (hfanout.trans hroute.symm) hne
    · rfl
    · rfl
    · rfl
  exact ⟨p, h, h'⟩

end Last

end Subordination.Daemon.Configuration
