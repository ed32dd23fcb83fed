import KvRaft.Api.ExecuteRust

/-! `executeRust` under a context that does not expire: the loop ends, it calls no address twice, and it
gives up only when every registered address has been called. -/

namespace KvRaft

namespace Registry

/-- Some node is registered at the address. -/
def Lists (nodes : Registry) (addr : String) : Prop := ∃ id, nodes.lookup id = some addr

theorem mem_foldl_candidates (addrOf : NodeId → String) (ids : List NodeId) (start : List String)
    (addr : String) :
    addr ∈ ids.foldl (fun candidates id =>
        let addr := addrOf id
        if candidates.head? ≠ some addr then candidates ++ [addr] else candidates) start ↔
      addr ∈ start ∨ ∃ id ∈ ids, addrOf id = addr := by
  induction ids generalizing start with
  | nil => simp
  | cons id ids ih =>
    rw [List.foldl_cons, ih]
    dsimp only
    split_ifs with hhead
    · simp [or_assoc, eq_comm]
    · -- the address that is left out stands at the head already
      have hmem : addrOf id ∈ start := List.mem_of_mem_head? (by simpa using hhead)
      constructor
      · rintro (h | ⟨id', hid', h⟩)
        · exact .inl h
        · exact .inr ⟨id', List.mem_cons_of_mem _ hid', h⟩
      · rintro (h | ⟨id', hid', h⟩)
        · exact .inl h
        · rcases List.mem_cons.mp hid' with rfl | hid'
          · exact .inl (h ▸ hmem)
          · exact .inr ⟨id', hid', h⟩

theorem mem_candidates (nodes : Registry) (addr : String) :
    addr ∈ nodes.candidates ↔ nodes.Lists addr := by
  rw [candidates, mem_foldl_candidates]
  constructor
  · rintro (h | ⟨id, hid, rfl⟩)
    · exact ⟨1, by simpa using h⟩
    · have hkey : id ∈ nodes := by simpa [ids, AList.mem_keys] using hid
      obtain ⟨addr, haddr⟩ := Option.isSome_iff_exists.mp (AList.lookup_isSome.mpr hkey)
      exact ⟨id, by simp [haddr]⟩
  · rintro ⟨id, hid⟩
    apply Or.inr
    have hkey : id ∈ nodes := AList.lookup_isSome.mp (by simp [hid])
    exact ⟨id, by simpa [ids, AList.mem_keys] using hkey, by simp [hid]⟩

end Registry

/-- The node at the address answers with success. -/
def Grants (call : String → CallResult) (addr : String) : Prop :=
  ∃ resp, call addr = .ok resp ∧ resp.success = true

def Reply.Succeeds : Reply → Prop
  | .response resp _ => resp.success = true
  | .failure _ _ => False

namespace Stage

/-- One step of `executeRust` with a context that does not expire. -/
def advance (call : String → CallResult) : Stage → Stage
  | .looping r => r.turn none
  | .calling target r => r.settle (call target)
  | .returned reply => .returned reply

def target : Stage → List String
  | .calling target _ => [target]
  | _ => []

def run (call : String → CallResult) : Nat → Stage → Stage × List String
  | 0, stage => (stage, [])
  | rounds + 1, stage =>
    let (last, called) := run call rounds (stage.advance call)
    (last, stage.target ++ called)

end Stage

namespace Routing

/-- How many registered nodes stand at an address that was not tried. -/
def untried (r : Routing) : Nat :=
  (r.nodes.keys.toFinset.filter fun id => ∀ addr ∈ r.nodes.lookup id, addr ∉ r.tried).card

/-- What holds at the head of the loop: every registered address was tried in vain or is a candidate. -/
structure Searching (call : String → CallResult) (r : Routing) : Prop where
  listed : ∀ addr ∈ r.candidates, r.nodes.Lists addr
  covered : ∀ addr, r.nodes.Lists addr → addr ∈ r.tried ∨ addr ∈ r.candidates
  failed : ∀ addr ∈ r.tried, ¬Grants call addr
  unsuccessful : ∀ resp ∈ r.lastResp, resp.success = false

section Loop
variable {call : String → CallResult} {r : Routing} {target : String} {rest : List String}

theorem result_not_succeeds (hr : r.Searching call) : ¬(r.result none).Succeeds := by
  unfold result
  cases hresp : r.lastResp with
  | none => simp [Reply.Succeeds]
  | some resp => simp [Reply.Succeeds, hr.unsuccessful resp hresp]

@[simp] theorem follow_nodes (r : Routing) (resp : ServiceResponse) :
    (r.follow resp).nodes = r.nodes := by
  unfold follow
  split
  · split_ifs <;> rfl
  · rfl

@[simp] theorem follow_lastResp (r : Routing) (resp : ServiceResponse) :
    (r.follow resp).lastResp = r.lastResp := by
  unfold follow
  split
  · split_ifs <;> rfl
  · rfl

theorem follow_candidates (r : Routing) (resp : ServiceResponse) :
    (r.follow resp).candidates = r.candidates ∨
      ∃ addr, r.nodes.Lists addr ∧ (r.follow resp).candidates = addr :: r.candidates := by
  unfold follow
  split
  · next addr haddr =>
    split_ifs
    · exact .inl rfl
    · obtain ⟨id, -, hid⟩ := Option.bind_eq_some_iff.mp haddr
      exact .inr ⟨addr, ⟨id, hid⟩, rfl⟩
  · exact .inl rfl

theorem Searching.follow (hr : r.Searching call) (resp : ServiceResponse) (hresp : resp.success = false) :
    ({ r with lastResp := some resp }.follow resp).Searching call := by
  have hcand := follow_candidates { r with lastResp := some resp } resp
  constructor
  · intro addr haddr
    rw [follow_nodes]
    rcases hcand with h | ⟨hint, hhint, h⟩
    · exact hr.listed addr (h ▸ haddr)
    · rw [h, List.mem_cons] at haddr
      rcases haddr with rfl | haddr
      · exact hhint
      · exact hr.listed addr haddr
  · intro addr haddr
    rw [follow_nodes] at haddr
    rw [follow_tried]
    apply (hr.covered addr haddr).imp_right
    rcases hcand with h | ⟨hint, hhint, h⟩
    · intro hmem
      rwa [h]
    · intro hmem
      rw [h]
      exact List.mem_cons_of_mem _ hmem
  · simpa using hr.failed
  · simp [hresp]

theorem Searching.drop {tried : List String} (hr : r.Searching call) (hcand : r.candidates = target :: rest)
    (hsub : r.tried ⊆ tried) (hmem : target ∈ tried) (hfailed : ∀ addr ∈ tried, ¬Grants call addr) :
    { r with candidates := rest, tried := tried }.Searching call where
  listed addr haddr := hr.listed addr (by simp [hcand, haddr])
  covered addr haddr := by
    rcases hr.covered addr haddr with h | h
    · exact .inl (hsub h)
    · rw [hcand, List.mem_cons] at h
      rcases h with rfl | h
      · exact .inl hmem
      · exact .inr h
  failed := hfailed
  unsuccessful := hr.unsuccessful

theorem Searching.skip (hr : r.Searching call) (hcand : r.candidates = target :: rest)
    (htried : target ∈ r.tried) : { r with candidates := rest }.Searching call :=
  hr.drop hcand (List.Subset.refl _) htried hr.failed

theorem Searching.pop (hr : r.Searching call) (hcand : r.candidates = target :: rest)
    (hfail : ¬Grants call target) :
    { r with candidates := rest, tried := target :: r.tried }.Searching call := by
  apply hr.drop hcand (List.subset_cons_self _ _) (List.mem_cons_self ..)
  intro addr haddr
  rcases List.mem_cons.mp haddr with rfl | h
  · exact hfail
  · exact hr.failed addr h

theorem untried_lt {r' : Routing} (hnodes : r'.nodes = r.nodes) (htried : r'.tried = target :: r.tried)
    (hlisted : r.nodes.Lists target) (hnew : target ∉ r.tried) : r'.untried < r.untried := by
  unfold untried
  rw [hnodes, htried]
  apply Finset.card_lt_card
  obtain ⟨id, hid⟩ := hlisted
  apply Finset.ssubset_iff_of_subset _ |>.mpr
  · refine ⟨id, ?_, by simp [hid]⟩
    have hkey : id ∈ r.nodes := AList.lookup_isSome.mp (by simp [hid])
    simpa [hid, hnew, AList.mem_keys] using hkey
  · intro id' hid'
    simp only [Finset.mem_filter, List.mem_cons, not_or] at hid' ⊢
    exact ⟨hid'.1, fun addr haddr => (hid'.2 addr haddr).2⟩

def Concludes (call : String → CallResult) (r : Routing) (reply : Reply) (called : List String) : Prop :=
  called.Nodup ∧ (∀ addr ∈ called, r.nodes.Lists addr ∧ addr ∉ r.tried) ∧
    ((reply.Succeeds ∧ ∃ addr ∈ called, Grants call addr) ∨
      (¬reply.Succeeds ∧ ∀ addr, r.nodes.Lists addr →
        ¬Grants call addr ∧ (addr ∈ r.tried ∨ addr ∈ called)))

theorem Concludes.pop {r' : Routing} {reply : Reply} {called : List String} (hnodes : r'.nodes = r.nodes)
    (htried : r'.tried = target :: r.tried) (hlisted : r.nodes.Lists target) (hnew : target ∉ r.tried)
    (h : Concludes call r' reply called) : Concludes call r reply (target :: called) := by
  obtain ⟨hnodup, hcalled, hend⟩ := h
  rw [hnodes, htried] at hcalled hend
  refine ⟨List.nodup_cons.mpr ⟨fun hmem => (hcalled target hmem).2 (by simp), hnodup⟩, ?_, ?_⟩
  · intro addr haddr
    rcases List.mem_cons.mp haddr with rfl | haddr
    · exact ⟨hlisted, hnew⟩
    · exact ⟨(hcalled addr haddr).1, fun hmem => (hcalled addr haddr).2 (List.mem_cons_of_mem _ hmem)⟩
  · rcases hend with ⟨hreply, addr, haddr, hans⟩ | ⟨hreply, hall⟩
    · exact .inl ⟨hreply, addr, List.mem_cons_of_mem _ haddr, hans⟩
    · refine .inr ⟨hreply, fun addr haddr => ⟨(hall addr haddr).1, ?_⟩⟩
      rcases (hall addr haddr).2 with h | h
      · rcases List.mem_cons.mp h with rfl | h
        · exact .inr (by simp)
        · exact .inl h
      · exact .inr (List.mem_cons_of_mem _ h)

theorem settle_of_not_grants {r : Routing} (hr : r.Searching call) (hfail : ¬Grants call target) :
    ∃ r', r.settle (call target) = .looping r' ∧ r'.Searching call ∧ r'.nodes = r.nodes ∧
      r'.tried = r.tried ∧ r'.candidates.length ≤ r.candidates.length + 1 := by
  cases hcall : call target with
  | error err =>
    exact ⟨_, rfl, ⟨hr.listed, hr.covered, hr.failed, hr.unsuccessful⟩, rfl, rfl, by simp⟩
  | ok resp =>
    have hresp : resp.success = false := by
      by_contra hsuccess
      exact hfail ⟨resp, hcall, by simpa using hsuccess⟩
    refine ⟨_, by simp [settle, hresp], hr.follow resp hresp, by simp, by simp, ?_⟩
    rcases follow_candidates { r with lastResp := some resp } resp with h | ⟨addr, -, h⟩ <;> simp [h]

/-- The loop ends from every state it can be in. The measure is the number of nodes to try together with
the number of candidates: a skipped candidate lowers the second, and a call lowers the first and at most
puts one candidate back. -/
theorem Searching.concludes (hr : r.Searching call) :
    ∃ rounds reply called, (Stage.looping r).run call rounds = (.returned reply, called) ∧
      Concludes call r reply called := by
  induction hn : r.untried + r.candidates.length using Nat.strong_induction_on generalizing r with
  | _ n ih =>
  subst hn
  cases hcand : r.candidates with
  | nil =>
    refine ⟨1, r.result none, [], by simp [Stage.run, Stage.advance, Stage.target, turn, hcand], by simp,
      by simp, .inr ⟨result_not_succeeds hr, fun addr haddr => ?_⟩⟩
    have htried : addr ∈ r.tried := by simpa [hcand] using hr.covered addr haddr
    exact ⟨hr.failed addr htried, .inl htried⟩
  | cons target rest =>
    have hlisted : r.nodes.Lists target := hr.listed target (by simp [hcand])
    by_cases htried : target ∈ r.tried
    · have hlt : { r with candidates := rest }.untried + rest.length <
          r.untried + r.candidates.length := by simp [hcand, untried]
      obtain ⟨rounds, reply, called, hrun, hend⟩ := ih _ hlt (hr.skip hcand htried) rfl
      exact ⟨rounds + 1, reply, called,
        by simp [Stage.run, Stage.advance, Stage.target, turn, hcand, htried, hrun], hend⟩
    · by_cases hans : Grants call target
      · -- the call succeeds and its response is returned
        obtain ⟨resp, hcall, hresp⟩ := hans
        refine ⟨2, .response resp 200, [target], ?_, by simp, by simp [hlisted, htried], .inl ⟨hresp,
          target, by simp, resp, hcall, hresp⟩⟩
        simp [Stage.run, Stage.advance, Stage.target, turn, hcand, htried, settle, hcall, hresp]
      · obtain ⟨r', hsettle, hr', hnodes, htried', hlen⟩ := settle_of_not_grants (hr.pop hcand hans) hans
        have hlt : r'.untried + r'.candidates.length < r.untried + r.candidates.length := by
          have := untried_lt (r := r) hnodes htried' hlisted htried
          simp only [hcand, List.length_cons] at hlen ⊢
          omega
        obtain ⟨rounds, reply, called, hrun, hend⟩ := ih _ hlt hr' rfl
        exact ⟨rounds + 2, reply, target :: called,
          by simp [Stage.run, Stage.advance, Stage.target, turn, hcand, htried, hsettle, hrun],
          hend.pop hnodes htried' hlisted htried⟩

end Loop
end Routing

/-- Whatever each address answers, `executeRust` returns after calling each registered address at most
once. Its reply is a success just if some registered address answers with success, and a reply that is
none comes after every registered address was called. -/
theorem executeRust_complete (nodes : Registry) (call : String → CallResult) :
    ∃ rounds reply called, (executeRust nodes).run call rounds = (.returned reply, called) ∧
      called.Nodup ∧ (∀ addr ∈ called, nodes.Lists addr) ∧
      (reply.Succeeds ↔ ∃ addr, nodes.Lists addr ∧ Grants call addr) ∧
      (¬reply.Succeeds → ∀ addr, nodes.Lists addr → addr ∈ called) := by
  unfold executeRust
  split_ifs with hempty
  · have hnone : ∀ addr, ¬nodes.Lists addr := by
      rintro addr ⟨id, hid⟩
      have hkey : id ∈ nodes.keys := AList.lookup_isSome.mp (by simp [hid])
      rw [List.isEmpty_iff.mp hempty] at hkey
      cases hkey
    exact ⟨0, _, [], rfl, by simp, by simp, by simp [Reply.Succeeds, hnone], by simp [hnone]⟩
  · have hstart : (⟨nodes, nodes.candidates, [], none, none⟩ : Routing).Searching call := by
      constructor <;> simp [Registry.mem_candidates]
    obtain ⟨rounds, reply, called, hrun, hnodup, hcalled, hend⟩ := hstart.concludes
    refine ⟨rounds, reply, called, hrun, hnodup, fun addr haddr => (hcalled addr haddr).1, ?_, ?_⟩
    · rcases hend with ⟨hreply, addr, haddr, hans⟩ | ⟨hreply, hall⟩
      · exact iff_of_true hreply ⟨addr, (hcalled addr haddr).1, hans⟩
      · exact iff_of_false hreply fun ⟨addr, haddr, hans⟩ => (hall addr haddr).1 hans
    · intro hreply addr haddr
      rcases hend with ⟨hsuccess, -⟩ | ⟨-, hall⟩
      · exact absurd hsuccess hreply
      · simpa using (hall addr haddr).2

end KvRaft
