import KvRaft.Lsm.MapRefinement

/-! The LSM database as the storage of a Raft node. -/

namespace KvRaft

namespace Database

/-- The result of an operation and the state it leaves, which stays when it fails. -/
def call (x : Op Unit) (db : Database) : Except Fault Unit × Database :=
  match x db with
  | .ok _ db' => (.ok (), db')
  | .error e db' => (.error e, db')

theorem call_of_ok {x : Op Unit} {db db' : Database} (h : x db = .ok () db') :
    call x db = (.ok (), db') := by
  rw [call, h]

end Database

section Instance
variable [FloatText] [Xxh3] [BloomSizing]

instance : Storage Database where
  Disk := Disk
  emptyDisk := .empty
  fresh := Database.fresh
  openInDir := Database.openInDir
  disk := Database.disk
  insert db k v := Database.call (Database.insert k v) db
  delete db k := Database.call (Database.delete k) db
  get := Database.get
  open_empty _ := rfl

theorem run_eq_call (db : Database) (c : Command) : Storage.run db c = Database.call (Database.exec c) db := by
  cases c <;> rfl

theorem runAll_of_execAll {cs : List Command} {db db' : Database}
    (h : Database.execAll cs db = .ok () db') : Storage.runAll db cs = db' := by
  induction cs generalizing db with
  | nil =>
    have h : EStateM.Result.ok () db = .ok () db' := h
    cases h
    rfl
  | cons c cs ih =>
    obtain ⟨db₁, hone, hrest⟩ := Database.execAll_cons h
    have hrun : (Storage.run db c).2 = db₁ := by rw [run_eq_call, Database.call_of_ok hone]
    rw [← ih hrest, ← hrun]
    rfl

/-- What a run of the database must keep to: sizes that fit, and a new name for every table. -/
def Database.Regular (config : Config) (cs : List Command) : Prop :=
  (∀ c ∈ cs, c.Fits) ∧ volume cs < 2 ^ 63 ∧ Database.RunCreatesIn Database.NextFree cs (.fresh config)

theorem Database.Regular.of_append {config : Config} {cs cs' : List Command}
    (h : Database.Regular config (cs ++ cs')) : Database.Regular config cs := by
  obtain ⟨hfits, hvolume, hids⟩ := h
  rw [volume_append] at hvolume
  exact ⟨fun c hc => hfits c (List.mem_append_left _ hc), by omega, hids.of_append⟩

theorem Database.Regular.execAll {config : Config} {cs : List Command}
    (h : Database.Regular config cs) :
    ∃ db runs, Database.execAll cs (.fresh config) = .ok () db ∧ Database.Refines cs runs db := by
  obtain ⟨hfits, hvolume, hids⟩ := h
  exact Database.fresh_refines config hfits hids hvolume

theorem database_reliable (config : Config) :
    Storage.Reliable Database config (Database.Regular config) where
  run_ok cs c h := by
    obtain ⟨db, -, heq, -⟩ := h.of_append.execAll
    obtain ⟨db', -, heq', -⟩ := h.execAll
    rw [Database.execAll_append heq] at heq'
    obtain ⟨db₁, hone, -⟩ := Database.execAll_cons heq'
    rw [show Storage.fresh config = Database.fresh config from rfl, runAll_of_execAll heq, run_eq_call,
      Database.call_of_ok hone]
  get_runAll cs h k := by
    obtain ⟨db, runs, heq, href⟩ := h.execAll
    rw [show Storage.fresh config = Database.fresh config from rfl, runAll_of_execAll heq]
    exact href.get_eq k

end Instance
end KvRaft
