/-!
# Resources that settings hand on

A block cache, a filter policy, an environment with its thread pools and an
information log. The store keeps them for its storage engine and does not look
inside.
-/

namespace BatchStore

structure BlockCache where
  /-- The number of bytes it may hold. -/
  capacity : UInt64
  deriving DecidableEq, Repr

/-- A bloom filter. -/
structure FilterPolicy where
  bitsPerKey : UInt32
  deriving DecidableEq, Repr

def FilterPolicy.name (_ : FilterPolicy) : String := "rocksdb.BuiltinBloomFilter"

inductive LogLevel where
  | trace
  | debug
  | info
  | warn
  | error
  deriving DecidableEq, Repr

def LogLevel.name : LogLevel → String
  | trace => "TRACE"
  | debug => "DEBUG"
  | info => "INFO"
  | warn => "WARN"
  | error => "ERROR"

def LogLevel.ofName? (name : String) : Option LogLevel :=
  [trace, debug, info, warn, error].find? (·.name = name)

structure InfoLog where
  name : String
  /-- The most verbose level that is written. -/
  level : LogLevel
  deriving DecidableEq, Repr

/-- The numbers of background threads of low and of high priority. -/
structure ThreadPools where
  low : UInt64
  high : UInt64
  deriving DecidableEq, Repr

def ThreadPools.initial : ThreadPools := ⟨1, 1⟩

/-- Environments and the handles on them. The handles that share an
environment see the same pools. -/
structure Environments where
  pools : List ThreadPools
  /-- The environment of each handle. -/
  handles : List Nat
  deriving DecidableEq, Repr

namespace Environments

def none : Environments := ⟨[], []⟩

/-- Adds a fresh environment with a handle of its own. -/
def create (envs : Environments) : Environments :=
  ⟨envs.pools ++ [.initial], envs.handles ++ [envs.pools.length]⟩

def environment (envs : Environments) (handle : Nat) : Nat := envs.handles.getD handle 0

/-- Adds a handle on the environment of another. -/
def share (envs : Environments) (handle : Nat) : Environments :=
  { envs with handles := envs.handles ++ [envs.environment handle] }

def update (envs : Environments) (handle : Nat) (f : ThreadPools → ThreadPools) :
    Environments :=
  { envs with pools := envs.pools.modify (envs.environment handle) f }

def setLow (envs : Environments) (handle : Nat) (threads : UInt64) : Environments :=
  envs.update handle fun pools => { pools with low := threads }

def setHigh (envs : Environments) (handle : Nat) (threads : UInt64) : Environments :=
  envs.update handle fun pools => { pools with high := threads }

/-- What each handle sees. -/
def sizes (envs : Environments) : List ThreadPools :=
  envs.handles.map fun environment => envs.pools.getD environment .initial

end Environments

end BatchStore
