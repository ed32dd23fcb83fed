import KvRaft.Raft.Clients
import KvRaft.Raft.CrashElections

/-! One node on its own, through any inputs and any crashes, those inside a save of `raft_meta.bin`
included: the votes it gives and the terms it sends, against what it finds on disk when it is back. -/

namespace KvRaft
open RaftNode

section General
variable {D : Type} [Storage D]

/-- The first `w` words of `new` have reached the file that held `old`. -/
def overwrite (w : Nat) (old new : List Nat) : List Nat := new.take w ++ old.drop w

def Saves (old new : List Nat) : Prop :=
  new = old ∨ ((metaBallot old).Le (metaBallot new) ∧ ∃ c t v, new = [c, t, v] ++ old.drop 3)

/-- However much of a save has reached the file, the ballot there is no older than before. -/
theorem Saves.torn {old new : List Nat} (h : Saves old new) (w : Nat) :
    (metaBallot old).Le (metaBallot (overwrite w old new)) := by
  rcases h with rfl | ⟨hle, c, t, v, rfl⟩
  · rw [overwrite, List.take_append_drop]
    exact .refl _
  match w with
  | 0 => exact .refl _
  | 1 =>
    match old with
    | [] | [_] | [_, _] | _ :: _ :: _ :: _ => exact .refl _
  | 2 =>
    match old with
    | [] | [_] | [_, _] => exact .refl _
    | _ :: _ :: _ :: _ =>
      -- The new term with the old vote.
      rcases hle with hlt | ⟨heq, -⟩
      · exact Or.inl hlt
      · exact Or.inr ⟨heq, Or.inr rfl⟩
  | w + 3 =>
    have hwhole : overwrite (w + 3) old ([c, t, v] ++ old.drop 3) = [c, t, v] ++ old.drop 3 := by
      change [c, t, v] ++ (old.drop 3).take w ++ old.drop (w + 3) = _
      rw [Nat.add_comm, ← List.drop_drop, List.append_assoc, List.take_append_drop]
    rw [hwhole]
    exact hle

def RaftNode.metaFiles (first : List Nat) (n : RaftNode D) : List (List Nat) :=
  first :: n.crashPoints.map fun p => p.dir.raftMeta

structure Chained (first : List Nat) (n : RaftNode D) : Prop where
  chain : (n.metaFiles first).IsChain Saves
  last : (n.metaFiles first).getLast? = some n.metaStore.file

namespace Chained
variable {first : List Nat} {n n' : RaftNode D} {input : Input} {now : Instant} {b₀ : Ballot}

theorem same (hn : Chained first n) (hpoints : n'.crashPoints = n.crashPoints)
    (hmeta : n'.metaStore = n.metaStore) : Chained first n' := by
  obtain ⟨hchain, hlast⟩ := hn
  rw [RaftNode.metaFiles, ← hpoints] at hchain hlast
  exact ⟨hchain, hmeta ▸ hlast⟩

theorem concat (hn : Chained first n) {p : CrashPoint D} (hpoints : n'.crashPoints = n.crashPoints ++ [p])
    (hp : p.dir.raftMeta = n'.metaStore.file) (hs : Saves n.metaStore.file n'.metaStore.file) :
    Chained first n' := by
  have hfiles : n'.metaFiles first = n.metaFiles first ++ [n'.metaStore.file] := by
    rw [RaftNode.metaFiles, hpoints, List.map_append, List.map_singleton, hp]
    rfl
  refine ⟨?_, by rw [hfiles, List.getLast?_concat]⟩
  rw [hfiles, List.isChain_append]
  refine ⟨hn.chain, List.isChain_singleton _, fun x hx y hy => ?_⟩
  rw [hn.last, Option.mem_some_iff] at hx
  rw [List.head?_singleton, Option.mem_some_iff] at hy
  exact hx ▸ hy ▸ hs

theorem extend (hn : Chained first n) {points : List (CrashPoint D)}
    (hpoints : n'.crashPoints = n.crashPoints ++ points) (hmeta : n'.metaStore = n.metaStore)
    (hp : ∀ p ∈ points, p.dir.raftMeta = n.metaStore.file) : Chained first n' := by
  induction points generalizing n with
  | nil => exact hn.same (hpoints.trans (List.append_nil _)) hmeta
  | cons p points ih =>
    have hstep : Chained first { n with crashPoints := n.crashPoints ++ [p] } :=
      hn.concat rfl (hp p (List.mem_cons_self ..)) (Or.inl rfl)
    apply ih hstep
    · rw [hpoints]
      simp
    · exact hmeta
    · exact fun q hq => hp q (List.mem_cons_of_mem _ hq)

theorem save (hn : Chained first n) (hsync : metaBallot n.metaStore.file = n.ballot)
    (hsync' : metaBallot n'.metaStore.file = n'.ballot) (hle : n.ballot.Le n'.ballot) {p : CrashPoint D}
    (hpoints : n'.crashPoints = n.crashPoints ++ [p]) (hp : p.dir.raftMeta = n'.metaStore.file)
    {c t : Nat} {v : Option NodeId} (hmeta : n'.metaStore = n.metaStore.save c t v) :
    Chained first n' := by
  refine hn.concat hpoints hp (Or.inr ⟨?_, c, t, v.getD 0, by rw [hmeta]; rfl⟩)
  rw [hsync, hsync']
  exact hle

theorem pushLogEntry [Bincode] (hn : Chained first n) (e : LogEntry) : Chained first (n.pushLogEntry e) := by
  refine hn.extend (List.append_assoc ..) rfl fun p hp => ?_
  rcases List.mem_cons.mp hp with rfl | hp
  · rfl
  · rw [List.mem_singleton.mp hp]
    rfl

theorem truncateLog (hn : Chained first n) (i : Nat) : Chained first (n.truncateLog i) :=
  hn.concat rfl rfl (Or.inl rfl)

theorem applyNext (hn : Chained first n) (hs : n.applyNext = some n') : Chained first n' := by
  obtain ⟨e, points, -, hk, hpoints, -⟩ := applyNext_kernel hs
  refine hn.extend (congrArg Kernel.crashPoints hk) (congrArg Kernel.metaStore hk) fun p hp => ?_
  rw [hpoints p hp]
  rfl

theorem move [FloatText] [Bincode] (hn : Chained first n) (hdur : Durable b₀ n) (hdur' : Durable b₀ n')
    (hm : Move input now n n') : Chained first n' := by
  cases hm with
  | aside hk => exact hn.same (congrArg Kernel.crashPoints hk) (congrArg Kernel.metaStore hk)
  | stepDown ht => exact hn.save hdur.synced hdur'.synced (Or.inl ht) rfl rfl rfl
  | grant hi ht hv => exact hn.save hdur.synced hdur'.synced (Or.inr ⟨rfl, hv⟩) rfl rfl rfl
  | push => exact hn.pushLogEntry _
  | replace => exact (hn.truncateLog _).pushLogEntry _
  | settle _ _ _ hs =>
    refine (applyCommittedEntries_induct hs (I := Chained first) ?_ fun b b' hb _ _ happ => hb.applyNext happ).1
    exact hn.save hdur.synced (metaBallot_save _ _ _ hdur.nonzero) (.refl _) rfl rfl rfl
  | _ => exact hn.same rfl rfl

/-- Every file a handler leaves on the way is followed by one more file operation. -/
theorem process [FloatText] [Bincode] (hdur : Durable b₀ n) (hz : ∀ c, n.Casts input now c → c ≠ 0)
    (hs : n.process input now = some n') : Chained n.metaStore.file n' := by
  obtain ⟨hopen, hmoves⟩ := hdur.moves hz hs
  have hfresh : Chained n.metaStore.file { n with crashPoints := [] } := ⟨List.isChain_singleton _, rfl⟩
  clear hs
  induction hmoves with
  | refl =>
    unfold RaftNode.opening at hopen ⊢
    dsimp only at hopen ⊢
    split_ifs at hopen ⊢
    · exact hfresh.save hdur.synced hopen.synced (Or.inl (Nat.lt_succ_self _)) rfl rfl rfl
    · exact hfresh
  | tail _ hlast ih => exact ih.move hlast.2.1 hlast.2.2 hlast.1

end Chained

/-- The directory when the process dies after `k` file operations of a handler that would leave `n'`,
with `w` words of the next operation on disk if that one is a save. -/
def RaftNode.cutAt (n n' : RaftNode D) (k w : Nat) : Option (Dir D) := do
  let before ← (n.dir :: n'.crashPoints.map (·.dir))[k]?
  match n'.crashPoints[k]? with
  | some next => return { before with raftMeta := overwrite w before.raftMeta next.dir.raftMeta }
  | none => return before

theorem cutAt_ballot [FloatText] [Bincode] {n n' : RaftNode D} {input : Input} {now : Instant} {b₀ : Ballot} {k w : Nat}
    {dir : Dir D} (hdur : Durable b₀ n) (hz : ∀ c, n.Casts input now c → c ≠ 0) (hs : n.process input now = some n')
    (hdir : n.cutAt n' k w = some dir) : n.ballot.Le (metaBallot dir.raftMeta) := by
  have hchain := Chained.process hdur hz hs
  have hdur' := hdur.process hz hs
  obtain ⟨before, hbefore, hdir⟩ := Option.bind_eq_some_iff.mp hdir
  have hle : n.ballot.Le (metaBallot before.raftMeta) := by
    rcases List.mem_cons.mp (List.mem_of_getElem? hbefore) with rfl | hmem
    · rw [show metaBallot n.dir.raftMeta = n.ballot from hdur.synced]
      exact .refl _
    · obtain ⟨p, hp, rfl⟩ := List.mem_map.mp hmem
      exact hdur'.points p hp
  split at hdir
  · next p hp =>
    obtain rfl := Option.some.inj hdir
    -- the write that was cut short is the next one in the chain of saved files
    refine hle.trans (Saves.torn ?_ w)
    have hold : (n'.metaFiles n.metaStore.file)[k]? = some before.raftMeta := by
      have := congrArg (Option.map Dir.raftMeta) hbefore
      rw [← List.getElem?_map] at this
      simpa [RaftNode.metaFiles, RaftNode.dir, Function.comp_def] using this
    have hnew : (n'.metaFiles n.metaStore.file)[k + 1]? = some p.dir.raftMeta := by
      simp [RaftNode.metaFiles, hp]
    obtain ⟨hk, hold⟩ := List.getElem?_eq_some_iff.mp hold
    obtain ⟨hk', hnew⟩ := List.getElem?_eq_some_iff.mp hnew
    exact hold ▸ hnew ▸ List.isChain_iff_getElem.mp hchain.chain k hk'
  · obtain rfl := Option.some.inj hdir
    exact hle

def Message.term? : Message → Option Nat
  | .requestVote r => some r.term
  | .requestVoteResponse r => some r.term
  | .appendEntries ae => some ae.term
  | .appendEntriesResponse r => some r.term
  | .clientResponse r => some r.term
  | _ => none

/-- A message is of no later term than the node has, and a vote in it is the vote the node has cast. -/
def RaftNode.Says (n : RaftNode D) (e : Envelope) : Prop :=
  (∀ t, e.2.term? = some t → t ≤ n.currentTerm) ∧
    ∀ r, e.2 = .requestVoteResponse r → r.voteGranted = true →
      r.term = n.currentTerm ∧ n.votedFor = some e.1

structure Truthful (n : RaftNode D) : Prop where
  outbox : ∀ e ∈ n.outbox, n.Says e
  pending : ∀ key ∈ n.pendingRequests, key.2 ≤ n.currentTerm

namespace Truthful
variable {n n' : RaftNode D} {input : Input} {now : Instant}

theorem says_response {e : Envelope} {r : ClientResponse} (he : e.2 = .clientResponse r)
    (ht : r.term ≤ n.currentTerm) : n.Says e := by
  refine ⟨fun t h => ?_, fun v h => nomatch he.symm.trans h⟩
  rw [he] at h
  exact Option.some.inj h ▸ ht

theorem says_posted {e : Envelope} (h : Posted input n e) : n.Says e := by
  cases h with
  | appendEntries hi hr hae =>
    obtain ⟨next, prev, -, -, -, rfl⟩ := makeAppendEntries_eq_some hae
    exact ⟨fun t h => (Option.some.inj h).ge, fun v h => nomatch h⟩
  | requestVote hr hp hreq =>
    obtain ⟨last, -, hreq⟩ := Option.bind_eq_some_iff.mp hreq
    obtain rfl := Option.some.inj hreq
    exact ⟨fun t h => (Option.some.inj h).ge, fun v h => nomatch h⟩
  | voteResponse hi hg =>
    refine ⟨fun t h => (Option.some.inj h).ge, fun v h hv => ?_⟩
    obtain rfl := Message.requestVoteResponse.inj h
    exact ⟨rfl, (hg hv).2⟩
  | appendResponse hi ht => exact ⟨fun t h => (Option.some.inj h).ge.trans_eq ht, fun v h => nomatch h⟩
  | forward hi hm =>
    rcases hm with ⟨cmd, rfl⟩ | ⟨id, addr, rfl⟩ | ⟨id, rfl⟩
    · exact ⟨fun t h => (nomatch h), fun v h => nomatch h⟩
    · exact ⟨fun t h => (nomatch h), fun v h => nomatch h⟩
    · exact ⟨fun t h => (nomatch h), fun v h => nomatch h⟩

theorem onward (hn : Truthful n) (ht : n'.currentTerm = n.currentTerm)
    (hv : ∀ c, n.votedFor = some c → n'.votedFor = some c)
    (hout : ∀ e ∈ n'.outbox, e ∈ n.outbox ∨ n'.Says e)
    (hpend : ∀ key ∈ n'.pendingRequests, key ∈ n.pendingRequests ∨ key.2 = n.currentTerm) :
    Truthful n' := by
  refine ⟨fun e he => ?_, fun key hkey => ?_⟩
  · rcases hout e he with he | he
    · obtain ⟨hterm, hvote⟩ := hn.outbox e he
      refine ⟨fun t h => ht ▸ hterm t h, fun r hr hg => ?_⟩
      obtain ⟨h, h'⟩ := hvote r hr hg
      exact ⟨h.trans ht.symm, hv _ h'⟩
    · exact he
  · rw [ht]
    rcases hpend key hkey with hkey | hkey
    · exact hn.pending key hkey
    · exact hkey.le

theorem same (hn : Truthful n) (ht : n'.currentTerm = n.currentTerm) (hv : n'.votedFor = n.votedFor)
    (hout : n'.outbox = n.outbox) (hpend : n'.pendingRequests = n.pendingRequests) : Truthful n' :=
  hn.onward ht (fun _ h => hv.trans h) (fun _ he => Or.inl (hout ▸ he)) fun _ hkey => Or.inl (hpend ▸ hkey)

theorem pushLogEntry [Bincode] (hn : Truthful n) (e : LogEntry) : Truthful (n.pushLogEntry e) :=
  hn.same rfl rfl (pushLogEntry_outbox n e) rfl

theorem truncateLog (hn : Truthful n) (i : Nat) : Truthful (n.truncateLog i) :=
  hn.same rfl rfl (truncateLog_outbox n i) rfl

theorem resolvePending (hn : Truthful n) (index term : Nat) (result : Except Fault Unit) :
    Truthful (n.resolvePending index term result) := by
  unfold RaftNode.resolvePending
  cases hkey : n.pendingRequests.lookup (index, term) with
  | none => exact hn
  | some responder =>
    have hmem : (index, term) ∈ n.pendingRequests := by
      apply AList.lookup_isSome.mp
      simp [hkey]
    refine hn.onward rfl (fun _ h => h) (fun e he => ?_) fun key hkey => Or.inl (AList.mem_erase.mp hkey).2
    rcases Responder.send_responses responder _ _ _ _ _ _ _ _ _ e he with he | ⟨r, hr, ht⟩
    · exact Or.inl he
    · exact Or.inr (says_response hr (ht.trans_le (hn.pending _ hmem)))

theorem applyPayload (hn : Truthful n) (p : EntryPayload) : Truthful (n.applyPayload p).2 := by
  cases p with
  | _ => exact hn.same rfl rfl rfl rfl

theorem applyNext (hn : Truthful n) (hs : n.applyNext = some n') : Truthful n' := by
  obtain ⟨e, -, rfl⟩ := applyNext_eq_some hs
  apply resolvePending
  exact (hn.applyPayload e.payload).same rfl rfl rfl rfl

theorem act [FloatText] [Bincode] (hn : Truthful n) (ha : Act input now n n') : Truthful n' := by
  have hvote := fun c => ha.votedFor_keep (c := c)
  cases ha with
  | post he =>
    refine hn.onward rfl hvote (fun e hmem => ?_) fun _ h => Or.inl h
    rcases List.mem_append.mp hmem with hmem | hmem
    · exact Or.inl hmem
    · rw [List.mem_singleton.mp hmem]
      exact Or.inr (says_posted he : n.Says _)
  | respond responder =>
    refine hn.onward rfl hvote (fun e he => ?_) fun _ h => Or.inl h
    rcases Responder.send_responses responder _ _ _ _ _ _ _ _ _ e he with he | ⟨r, hr, ht⟩
    · exact Or.inl he
    · exact Or.inr (says_response hr ht.le)
  | wait hr index responder =>
    refine hn.onward rfl hvote (fun e he => Or.inl he) fun key hkey => ?_
    rcases AList.mem_insert _ |>.mp hkey with rfl | hkey
    · exact Or.inr rfl
    · exact Or.inl hkey
  | push => exact hn.pushLogEntry _
  | replace => exact (hn.truncateLog _).pushLogEntry _
  | settle _ _ _ hs =>
    exact (applyCommittedEntries_induct hs (I := Truthful) (hn.same rfl rfl rfl rfl)
      fun b b' hb _ _ happ => hb.applyNext happ).1
  | _ => exact hn.onward rfl hvote (fun _ he => Or.inl he) fun _ hkey => Or.inl hkey

theorem process [FloatText] [Bincode] (hout : n.outbox = []) (hpend : ∀ key ∈ n.pendingRequests, key.2 ≤ n.currentTerm)
    (hs : n.process input now = some n') : Truthful n' := by
  have hempty : ∀ {P : Envelope → Prop}, ∀ e ∈ n.outbox, P e := by simp [hout]
  have hopen : Truthful (n.opening input now) ∧ (n.opening input now).outbox = n.outbox := by
    unfold RaftNode.opening
    dsimp only
    split_ifs
    · exact ⟨⟨hempty, fun key hkey => (hpend key hkey).trans (Nat.le_succ _)⟩, rfl⟩
    · exact ⟨⟨hempty, hpend⟩, rfl⟩
  obtain ⟨b, hb, hacts⟩ := process_acts input now hs
  clear hs
  induction hacts with
  | refl =>
    rcases hb with rfl | ⟨t, -, -, rfl⟩
    · exact hopen.1
    · refine ⟨fun e he => ?_, fun key hkey => absurd hkey (AList.notMem_empty key)⟩
      rcases stepDown_responses _ t now e he with he | ⟨r, hr, ht⟩
      · exact hempty e (hopen.2 ▸ he)
      · exact says_response hr ht.le
  | tail _ hlast ih => exact ih.act hlast

end Truthful

/-- A node with all it has sent since it was first started, and the terms in which it stood for election. -/
structure History (D : Type) [Storage D] where
  node : RaftNode D
  sent : List Envelope
  candidacies : List Nat

/-- What can happen to a node: a handler runs and its messages go out, the process restarts in memory,
or it dies between handlers or inside one and is started again from its directory. -/
inductive NodeEvent where
  | handle (input : Input) (now : Instant)
  | restart (now : Instant)
  | crash (now : Instant)
  | crashInside (input : Input) (begun : Instant) (k w : Nat) (now : Instant)

def NodeEvent.call? : NodeEvent → Option (Input × Instant)
  | .handle input now => some (input, now)
  | .crashInside input begun .. => some (input, begun)
  | _ => none

namespace History

def start [FloatText] [Bincode] (dir : Dir D) (id : NodeId) (peers : List NodeId) (config : Config) (now : Instant) :
    Option (History D) :=
  (RaftNode.newInDir dir id peers config now).map fun n => ⟨n, [], []⟩

def recover [FloatText] [Bincode] (h : History D) (dir : Dir D) (peers : List NodeId) (config : Config)
    (now : Instant) :
    Option (History D) :=
  (RaftNode.newInDir dir h.node.id peers config now).map fun n => { h with node := n }

def step [FloatText] [Bincode] (peers : List NodeId) (config : Config) (h : History D) : NodeEvent → Option (History D)
  | .handle input now => do
    let n ← h.node.process input now
    let stood := if h.node.startsElection input now then [h.node.currentTerm + 1] else []
    return ⟨{ n with outbox := [] }, h.sent ++ n.outbox, h.candidacies ++ stood⟩
  | .restart now => some { h with node := h.node.restart now }
  | .crash now => h.recover h.node.dir peers config now
  | .crashInside input begun k w now => do
    let n ← h.node.process input begun
    let dir ← h.node.cutAt n k w
    h.recover dir peers config now

def run [FloatText] [Bincode] (peers : List NodeId) (config : Config) (h : History D) (events : List NodeEvent) :
    Option (History D) :=
  events.foldlM (step peers config) h

/-- The node has given its vote in term `t` to `c`, in an answer or by being a candidate. -/
def VotedFor (h : History D) (t : Nat) (c : NodeId) : Prop :=
  (∃ r, (c, .requestVoteResponse r) ∈ h.sent ∧ r.voteGranted = true ∧ r.term = t) ∨
    (t ∈ h.candidacies ∧ c = h.node.id)

/-- One vote a term, and no term in a sent message that the node does not know of any more. -/
structure Safe (h : History D) : Prop where
  votes : ∀ t c c', h.VotedFor t c → h.VotedFor t c' → c = c'
  terms : ∀ e ∈ h.sent, ∀ t, e.2.term? = some t → t ≤ h.node.currentTerm

end History

/-- The event makes the node vote for no candidate 0, and start no election in the last term that a
64-bit word can hold. -/
def NodeEvent.Sound (n : RaftNode D) (e : NodeEvent) : Prop :=
  ∀ input now, e.call? = some (input, now) →
    (∀ c, n.Casts input now c → c ≠ 0) ∧ (n.startsElection input now = true → n.currentTerm + 1 < 2 ^ 64)

structure Upright (h : History D) : Prop where
  durable : ∃ b₀, Durable b₀ h.node
  outbox : h.node.outbox = []
  pending : ∀ key ∈ h.node.pendingRequests, key.2 ≤ h.node.currentTerm
  votes : ∀ t c, h.VotedFor t c → (⟨t, some c⟩ : Ballot).Le h.node.ballot
  safe : h.Safe

theorem startsElection_term? {n : RaftNode D} {input : Input} {now : Instant}
    (he : n.startsElection input now = true) : input.term? = none := by
  cases input with
  | message m => cases m <;> first | rfl | cases he
  | tick => rfl
  | request r => rfl

theorem process_stood [FloatText] [Bincode] {n n' : RaftNode D} {input : Input} {now : Instant}
    (hs : n.process input now = some n') (he : n.startsElection input now = true) :
    n'.currentTerm = n.currentTerm + 1 ∧ n'.votedFor = some n.id := by
  obtain ⟨b, hb, hacts⟩ := process_acts input now hs
  have hopen : n.opening input now = ({ n with crashPoints := [] } : RaftNode D).stand := by
    simp only [RaftNode.opening, he, if_true]
  rw [hopen] at hb
  rcases hb with rfl | ⟨t, hi, -⟩
  · exact ⟨hacts.currentTerm_eq, hacts.votedFor_keep rfl⟩
  · exact nomatch (startsElection_term? he).symm.trans hi

namespace Upright
variable {h h' : History D} {peers : List NodeId} {config : Config}

theorem node (hh : Upright h) {n : RaftNode D} (hid : n.id = h.node.id) (hle : h.node.ballot.Le n.ballot)
    {b₀ : Ballot} (hdur : Durable b₀ n) (hout : n.outbox = []) (hpend : n.pendingRequests = ∅) :
    Upright { h with node := n } := by
  have hvoted : ∀ t c, History.VotedFor { h with node := n } t c → h.VotedFor t c := by
    intro t c hv
    rcases hv with hv | ⟨ht, hc⟩
    · exact Or.inl hv
    · exact Or.inr ⟨ht, hc.trans hid⟩
  refine ⟨⟨b₀, hdur⟩, hout, fun key hkey => ?_, fun t c hv => (hh.votes t c (hvoted t c hv)).trans hle,
    fun t c c' hv hv' => hh.safe.votes t c c' (hvoted t c hv) (hvoted t c' hv'), fun e he t ht => ?_⟩
  · rw [hpend] at hkey
    exact absurd hkey (AList.notMem_empty key)
  · exact (hh.safe.terms e he t ht).trans hle.term_le

theorem recover [FloatText] [Bincode] (hh : Upright h) {dir : Dir D} {now : Instant}
    (hle : h.node.ballot.Le (metaBallot dir.raftMeta))
    (hs : h.recover dir peers config now = some h') : Upright h' := by
  obtain ⟨n, hn, rfl⟩ := Option.map_eq_some_iff.mp hs
  obtain ⟨hid, hballot, -, hout, -⟩ := newInDir_eq_some hn
  exact hh.node hid (hballot ▸ hle) (.newInDir hn) hout (newInDir_pending hn)

theorem handle [FloatText] [Bincode] (hh : Upright h) {input : Input} {now : Instant}
    (hz : ∀ c, h.node.Casts input now c → c ≠ 0)
    (hs : h.step peers config (.handle input now) = some h') : Upright h' := by
  obtain ⟨n, hn, hs⟩ := Option.bind_eq_some_iff.mp hs
  obtain rfl := Option.some.inj hs
  obtain ⟨b₀, hdur⟩ := hh.durable
  have hdur' := hdur.process hz hn
  have htrue := Truthful.process hh.outbox hh.pending hn
  have hid := process_id input now hn
  -- A vote is one of the history so far, or the one the node now has.
  have hvoted : ∀ t c, (⟨{ n with outbox := [] }, h.sent ++ n.outbox, h.candidacies ++
      if h.node.startsElection input now then [h.node.currentTerm + 1] else []⟩ : History D).VotedFor t c →
      h.VotedFor t c ∨ (t = n.currentTerm ∧ n.votedFor = some c) := by
    intro t c hv
    rcases hv with ⟨r, hr, hg, rfl⟩ | ⟨ht, rfl⟩
    · rcases List.mem_append.mp hr with hr | hr
      · exact Or.inl (Or.inl ⟨r, hr, hg, rfl⟩)
      · exact Or.inr ((htrue.outbox _ hr).2 r rfl hg)
    · rcases List.mem_append.mp ht with ht | ht
      · exact Or.inl (Or.inr ⟨ht, hid⟩)
      · split_ifs at ht with he
        · obtain ⟨hterm, hvote⟩ := process_stood hn he
          exact Or.inr ⟨(List.mem_singleton.mp ht).trans hterm.symm, hvote.trans (congrArg some hid.symm)⟩
        · cases ht
  -- ballots only go up, so an old vote in the current term is the vote that the node still has
  have hkept : ∀ t c, h.VotedFor t c → (⟨t, some c⟩ : Ballot).Le n.ballot := fun t c hv =>
    (hh.votes t c hv).trans hdur'.le
  have hsame : ∀ t c c', h.VotedFor t c → t = n.currentTerm ∧ n.votedFor = some c' → c = c' := by
    rintro t c c' hv ⟨rfl, hvote⟩
    rcases hkept _ c hv with hlt | ⟨-, hnone | heq⟩
    · exact absurd hlt (Nat.lt_irrefl _)
    · cases hnone
    · exact Option.some.inj (heq.trans hvote)
  refine ⟨⟨_, hdur'.silent rfl hdur'.synced fun p hp => Or.inl hp⟩, rfl, htrue.pending, fun t c hv => ?_,
    fun t c c' hv hv' => ?_, fun e he t ht => ?_⟩
  · rcases hvoted t c hv with hold | ⟨rfl, hnew⟩
    · exact hkept t c hold
    · exact Or.inr ⟨rfl, Or.inr hnew.symm⟩
  · rcases hvoted t c hv with hv | hv
    · rcases hvoted t c' hv' with hv' | hv'
      · exact hh.safe.votes t c c' hv hv'
      · exact hsame t c c' hv hv'
    · rcases hvoted t c' hv' with hv' | hv'
      · exact (hsame t c' c hv' hv).symm
      · exact Option.some.inj (hv.2.symm.trans hv'.2)
  · rcases List.mem_append.mp he with he | he
    · exact (hh.safe.terms e he t ht).trans hdur'.le.term_le
    · exact (htrue.outbox e he).1 t ht

theorem step [FloatText] [Bincode] (hh : Upright h) {e : NodeEvent} (hsound : e.Sound h.node)
    (hs : h.step peers config e = some h') : Upright h' := by
  obtain ⟨b₀, hdur⟩ := hh.durable
  cases e with
  | handle input now => exact hh.handle (hsound input now rfl).1 hs
  | restart now =>
    obtain rfl := Option.some.inj hs
    exact hh.node rfl (.refl _) (hdur.silent rfl hdur.synced fun p hp => Or.inl hp) rfl rfl
  | crash now =>
    refine hh.recover ?_ hs
    rw [show metaBallot h.node.dir.raftMeta = h.node.ballot from hdur.synced]
    exact .refl _
  | crashInside input begun k w now =>
    obtain ⟨n, hn, hs⟩ := Option.bind_eq_some_iff.mp hs
    obtain ⟨dir, hdir, hs⟩ := Option.bind_eq_some_iff.mp hs
    exact hh.recover (cutAt_ballot hdur (hsound input begun rfl).1 hn hdir) hs

theorem start [FloatText] [Bincode] {dir : Dir D} {id : NodeId} {now : Instant}
    (hs : History.start dir id peers config now = some h) : Upright h := by
  obtain ⟨n, hn, rfl⟩ := Option.map_eq_some_iff.mp hs
  obtain ⟨-, -, -, hout, -⟩ := newInDir_eq_some hn
  refine ⟨⟨_, .newInDir hn⟩, hout, fun key hkey => ?_, fun t c hv => ?_, fun t c c' hv => ?_, fun e he => nomatch he⟩
  · rw [newInDir_pending hn] at hkey
    exact absurd hkey (AList.notMem_empty key)
  all_goals rcases hv with ⟨r, hr, -⟩ | ⟨ht, -⟩
  · cases hr
  · cases ht
  · cases hr
  · cases ht

end Upright

def History.SoundStep [FloatText] [Bincode] (peers : List NodeId) (config : Config) (h h' : History D) : Prop :=
  ∃ e : NodeEvent, e.Sound h.node ∧ h.step peers config e = some h'

/-- Votes are durable as long as none is for candidate 0: whatever the node is given and wherever it
crashes, it votes once a term, and it comes back with every term it has told others. -/
theorem votes_durable [FloatText] [Bincode] (dir : Dir D) (id : NodeId) (peers : List NodeId) (config : Config)
    (now : Instant) {h₀ h : History D} (hstart : History.start dir id peers config now = some h₀)
    (hrun : Relation.ReflTransGen (History.SoundStep peers config) h₀ h) : h.Safe := by
  suffices hup : Upright h from hup.safe
  induction hrun with
  | refl => exact .start hstart
  | tail _ hlast ih =>
    obtain ⟨e, hsound, hs⟩ := hlast
    exact ih.step hsound hs

end General

section Concrete
open scoped Concrete

theorem sound_request {n : RaftNode Database} {e : NodeEvent} {request : RequestVote} {now : Instant}
    (he : e.call? = some (.message (.requestVote request), now)) (hid : request.candidateId ≠ 0) :
    e.Sound n := by
  intro input now' hcall
  obtain ⟨rfl, rfl⟩ := Prod.mk.inj (Option.some.inj (he.symm.trans hcall))
  refine ⟨fun c hcast => ?_, fun hno => nomatch hno⟩
  rcases hcast with ⟨hno, -⟩ | ⟨r, hr, -, rfl⟩
  · cases hno
  · cases hr
    exact hid

/-- A crash inside the save of a new term leaves that term with the vote of the old one. -/
theorem votes_durable_torn : ∃ h₀ h₁ h₂ : History Database,
    History.start .empty 1 [2, 3] .default ⟨0, 0⟩ = some h₀ ∧
    h₀.step [2, 3] .default (.handle (.message (.requestVote ⟨1, 2, 0, 0⟩)) ⟨0, 0⟩) = some h₁ ∧
    h₁.step [2, 3] .default
      (.crashInside (.message (.requestVote ⟨5, 3, 0, 0⟩)) ⟨0, 0⟩ 0 2 ⟨0, 0⟩) = some h₂ ∧
    (h₂.node.currentTerm, h₂.node.votedFor) = (5, some 2) ∧ h₂.Safe := by
  have hrun : ((History.start .empty 1 [2, 3] .default ⟨0, 0⟩ : Option (History Database)).bind fun h₀ =>
      (h₀.step [2, 3] .default (.handle (.message (.requestVote ⟨1, 2, 0, 0⟩)) ⟨0, 0⟩)).bind fun h₁ =>
        (h₁.step [2, 3] .default
          (.crashInside (.message (.requestVote ⟨5, 3, 0, 0⟩)) ⟨0, 0⟩ 0 2 ⟨0, 0⟩)).map fun h₂ =>
            (h₂.node.currentTerm, h₂.node.votedFor)) = some (5, some 2) := by
    decide +kernel
  obtain ⟨h₀, hstart, hrun⟩ := Option.bind_eq_some_iff.mp hrun
  obtain ⟨h₁, hfirst, hrun⟩ := Option.bind_eq_some_iff.mp hrun
  obtain ⟨h₂, hsecond, hrun⟩ := Option.map_eq_some_iff.mp hrun
  refine ⟨h₀, h₁, h₂, hstart, hfirst, hsecond, hrun, votes_durable .empty 1 [2, 3] .default ⟨0, 0⟩ hstart ?_⟩
  apply Relation.ReflTransGen.tail (.single ⟨_, sound_request rfl (by decide), hfirst⟩)
  exact ⟨_, sound_request rfl (by decide), hsecond⟩

/-- A vote for candidate 0 is gone after a crash, and the node votes again. -/
theorem vote_cast_twice : ∃ h₀ h : History Database,
    History.start .empty 1 [2, 3] .default ⟨0, 0⟩ = some h₀ ∧
    h₀.run [2, 3] .default [.handle (.message (.requestVote ⟨1, 0, 0, 0⟩)) ⟨0, 0⟩, .crash ⟨0, 0⟩,
      .handle (.message (.requestVote ⟨1, 2, 0, 0⟩)) ⟨0, 0⟩] = some h ∧ ¬ h.Safe := by
  have hrun : ((History.start .empty 1 [2, 3] .default ⟨0, 0⟩ : Option (History Database)).bind fun h₀ =>
      (h₀.run [2, 3] .default [.handle (.message (.requestVote ⟨1, 0, 0, 0⟩)) ⟨0, 0⟩, .crash ⟨0, 0⟩,
        .handle (.message (.requestVote ⟨1, 2, 0, 0⟩)) ⟨0, 0⟩]).map History.sent) =
      some [(0, .requestVoteResponse ⟨1, 1, true⟩), (2, .requestVoteResponse ⟨1, 1, true⟩)] := by
    decide +kernel
  obtain ⟨h₀, hstart, hrun⟩ := Option.bind_eq_some_iff.mp hrun
  obtain ⟨h, hend, hsent⟩ := Option.map_eq_some_iff.mp hrun
  refine ⟨h₀, h, hstart, hend, fun hsafe => ?_⟩
  have hzero : h.VotedFor 1 0 := Or.inl ⟨⟨1, 1, true⟩, by simp [hsent], rfl, rfl⟩
  have htwo : h.VotedFor 1 2 := Or.inl ⟨⟨1, 1, true⟩, by simp [hsent], rfl, rfl⟩
  exact absurd (hsafe.votes 1 0 2 hzero htwo) (by decide)

end Concrete
end KvRaft
