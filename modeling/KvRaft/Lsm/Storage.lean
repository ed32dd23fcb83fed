import KvRaft.Lsm.Record

/-! The database as the Raft node sees it: the calls of `Database` that `raft/` makes. -/

namespace KvRaft

structure Config where
  sstableLevel : Nat
  dataThreshold : Nat
  sstableThreshold : Nat
  deriving DecidableEq, Repr

namespace Config

/-- `Config::default`. -/
def default : Config := ⟨2, 2, 3⟩

end Config

/-- A database type: `D` is the value in memory together with its files, `Disk` the files alone. -/
class Storage (D : Type) where
  Disk : Type
  emptyDisk : Disk
  fresh : Config → D
  openInDir : Disk → Config → Except Fault D
  disk : D → Disk
  insert : D → String → Value → Except Fault Unit × D
  delete : D → String → Except Fault Unit × D
  get : D → String → Except Fault (Option Value)
  open_empty : ∀ config, openInDir emptyDisk config = .ok (fresh config)

namespace Storage
variable {D : Type} [Storage D]

def run (d : D) : Command → Except Fault Unit × D
  | .set k v => insert d k v
  | .delete k => delete d k

def fold (cs : List Command) : String → Option Value :=
  cs.foldl (fun m c => match c with
    | .set k v => fun k' => if k' = k then some v else m k'
    | .delete k => fun k' => if k' = k then none else m k') (fun _ => none)

/-- The database after a list of commands, the results of the calls dropped. -/
def runAll (d : D) (cs : List Command) : D := cs.foldl (fun d c => (run d c).2) d

/-- On the command sequences `P` the calls of the database do not fail and it behaves as a map. -/
structure Reliable (D : Type) [Storage D] (config : Config) (P : List Command → Prop) : Prop where
  run_ok : ∀ cs c, P (cs ++ [c]) → (run (runAll (fresh config : D) cs) c).1 = .ok ()
  get_runAll : ∀ cs, P cs → ∀ k, get (runAll (fresh config : D) cs) k = .ok (fold cs k)

theorem runAll_append (d : D) (cs cs' : List Command) :
    runAll d (cs ++ cs') = runAll (runAll d cs) cs' := List.foldl_append ..

theorem runAll_concat (d : D) (cs : List Command) (c : Command) :
    runAll d (cs ++ [c]) = (run (runAll d cs) c).2 := by
  rw [runAll_append]
  rfl

end Storage
end KvRaft
