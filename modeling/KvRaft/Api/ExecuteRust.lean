import Mathlib.Data.List.AList
import Mathlib.Data.List.Sort
import KvRaft.Raft.Types

/-! The gateway's loop over the nodes of the cluster (`executeRust` in `api/main.go`), cut where it waits
for a call. -/

namespace KvRaft

abbrev Registry := AList (fun _ : NodeId => String)

abbrev CallResult := Except String ServiceResponse

/-- What `executeRust` returns: a response with its HTTP status, or an error with its own. -/
inductive Reply where
  | response (resp : ServiceResponse) (status : Nat)
  | failure (status : Nat) (err : String)
  deriving DecidableEq, Repr

namespace Registry

/-- The ids in the order of `sort.Slice`. -/
def ids (nodes : Registry) : List NodeId := nodes.keys.insertionSort (· ≤ ·)

/-- The addresses to start with: node 1 comes first, and its address is not listed again. -/
def candidates (nodes : Registry) : List String :=
  nodes.ids.foldl (fun candidates id =>
      let addr := (nodes.lookup id).getD ""
      if candidates.head? ≠ some addr then candidates ++ [addr] else candidates)
    (nodes.lookup 1).toList

end Registry

/-- The variables of the loop. `lastResp` is set together with `gotResponse`. -/
structure Routing where
  nodes : Registry
  candidates : List String
  tried : List String
  lastResp : Option ServiceResponse
  lastErr : Option String

/-- Where `executeRust` stands: at the head of its loop, in a call, or at its end. -/
inductive Stage where
  | looping (r : Routing)
  | calling (target : String) (r : Routing)
  | returned (reply : Reply)

namespace Routing

def result (r : Routing) (ctxErr : Option String) : Reply :=
  match r.lastResp with
  | some resp => .response resp (if ctxErr.isSome then 504 else 409)
  | none =>
    let lastErr := r.lastErr.getD "no Rust node responded"
    .failure 502 s!"no Rust node responded successfully: {lastErr}"

/-- One round of the loop up to its call, given `ctx.Err()`. -/
def turn (r : Routing) (ctxErr : Option String) : Stage :=
  match r.candidates with
  | [] => .returned (r.result ctxErr)
  | target :: candidates =>
    match ctxErr with
    | some err => .returned ({ r with lastErr := some err }.result ctxErr)
    | none =>
      if target ∈ r.tried then .looping { r with candidates := candidates }
      else .calling target { r with candidates := candidates, tried := target :: r.tried }

/-- A response that names a registered leader sends the loop there next, unless it has been there. -/
def follow (r : Routing) (resp : ServiceResponse) : Routing :=
  match resp.leaderId.bind r.nodes.lookup with
  | some leaderAddr =>
    if leaderAddr ∈ r.tried then r else { r with candidates := leaderAddr :: r.candidates }
  | none => r

def settle (r : Routing) : CallResult → Stage
  | .error err => .looping { r with lastErr := some err }
  | .ok resp =>
    let r := { r with lastResp := some resp }.follow resp
    if resp.success then .returned (.response resp 200) else .looping r

section Loop
variable {r r' : Routing}

@[simp] theorem follow_tried (r : Routing) (resp : ServiceResponse) : (r.follow resp).tried = r.tried := by
  unfold follow
  split
  · split_ifs <;> rfl
  · rfl

theorem turn_calling {ctxErr : Option String} {target : String} (h : r.turn ctxErr = .calling target r') :
    target ∉ r.tried ∧ r'.tried = target :: r.tried := by
  unfold turn at h
  split at h
  · cases h
  · cases ctxErr with
    | some err => cases h
    | none =>
      dsimp only at h
      split_ifs at h with htried
      cases h
      exact ⟨htried, rfl⟩

theorem turn_looping {ctxErr : Option String} (h : r.turn ctxErr = .looping r') : r'.tried = r.tried := by
  unfold turn at h
  split at h
  · cases h
  · cases ctxErr with
    | some err => cases h
    | none =>
      dsimp only at h
      split_ifs at h
      cases h
      rfl

theorem settle_looping {result : CallResult} (h : r.settle result = .looping r') :
    r'.tried = r.tried ∧ ∀ resp, result = .ok resp → resp.success = false := by
  cases result with
  | error err =>
    cases h
    exact ⟨rfl, fun resp hresp => nomatch hresp⟩
  | ok resp =>
    simp only [settle] at h
    split_ifs at h with hsuccess
    cases h
    refine ⟨follow_tried _ resp, ?_⟩
    rintro _ ⟨⟩
    simpa using hsuccess

theorem settle_ne_calling (r : Routing) (result : CallResult) (target : String) :
    r.settle result ≠ .calling target r' := by
  intro h
  cases result with
  | error err => cases h
  | ok resp =>
    simp only [settle] at h
    split_ifs at h

end Loop
end Routing

def executeRust (nodes : Registry) : Stage :=
  if nodes.keys.isEmpty then .returned (.failure 502 "no Rust nodes are registered")
  else .looping ⟨nodes, nodes.candidates, [], none, none⟩

end KvRaft
