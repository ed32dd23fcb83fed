import KvRaft.Raft.Network
import KvRaft.Raft.Safety

/-! A deployment runs the cluster: whatever the tasks and connections of its processes do, the nodes go
through what they can go through in a cluster whose network keeps every message. -/

namespace KvRaft
open Bytes FramedPipe

/-- The link takes what a process has for a peer to that peer, or to a client that goes by its id. -/
def Link.LeadsTo (link : Link) (id peer : NodeId) : Prop :=
  link.source = .node id ∧ (link.dest = .node peer ∨ ∃ k, link.dest = .client k)

/-- Two states of one link. Its ends stay, and the handshake can only be read. -/
structure Link.Same (link link' : Link) : Prop where
  source : link'.source = link.source
  dest : link'.dest = link.dest
  greeting : link'.greeting = link.greeting ∨ link'.greeting = none

theorem Link.Same.refl (link : Link) : link.Same link := ⟨rfl, rfl, .inl rfl⟩

section Deployment
variable {D : Type} [Storage D] [Bincode]

/-- What a process may be given: something from outside that is allowed, or what was sent to it. -/
def Given (E : Message → Prop) (c : Cluster D) (id : NodeId) (m : Message) : Prop := E m ∨ (id, m) ∈ c.network

def Link.Fits (link : Link) (E : Message → Prop) (c : Cluster D) (m : Message) : Prop :=
  ∀ id, link.dest = .node id → Given E c id m

/-- The handshake is that of the node at the other end, and the link back is the one behind. -/
def Link.Greets (link : Link) (links : List Link) (i : Nat) : Prop :=
  ∀ greeting, link.greeting = some greeting → ∃ id back, greeting = Wire.beBytes 8 id ∧ id < 2 ^ 64 ∧
    (link.source = .node id ∨ ∃ k, link.source = .client k) ∧ links[i + 1]? = some back ∧
    back.source = link.dest ∧ back.dest = link.source

def Piped [WireFormat] (E : Message → Prop) (c : Cluster D) (links : List Link) : Prop :=
  ∀ (i : Nat) (link : Link), links[i]? = some link →
    link.pipe.Ok Wire.framing ∧ ∀ m ∈ link.pipe.sent, link.Fits E c m

def Leads (links : List Link) (id : NodeId) (senders : AList fun _ : NodeId => Nat) : Prop :=
  ∀ peer i, senders.lookup peer = some i → ∃ link, links[i]? = some link ∧ link.LeadsTo id peer

structure Agrees [WireFormat] (E : Message → Prop) (d : Deployment D) (c : Cluster D) : Prop where
  nodes : ∀ id, c.nodes id = (d.hosts id).map Host.node
  boot : c.boot = d.boot
  words : ∀ id h, d.hosts id = some h → id < 2 ^ 64
  inbox : ∀ id h, d.hosts id = some h → ∀ m ∈ h.inbox, Given E c id m
  senders : ∀ id h, d.hosts id = some h → Leads d.links id h.activeSenders
  pipes : Piped E c d.links
  greets : ∀ (i : Nat) (link : Link), d.links[i]? = some link → link.Greets d.links i

/-- The links have moved on: their ends are the same, there may be more of them, and what is in them is
right. -/
structure Moved [WireFormat] (E : Message → Prop) (c : Cluster D) (links links' : List Link) : Prop where
  length : links.length ≤ links'.length
  same : ∀ (i : Nat) (link link' : Link), links[i]? = some link → links'[i]? = some link' → link.Same link'
  pipes : Piped E c links'
  fresh : ∀ (i : Nat) (link' : Link), links.length ≤ i → links'[i]? = some link' → link'.Greets links' i

section Links
variable {E : Message → Prop} {c c' : Cluster D} {links links' : List Link} {i : Nat} {link link' : Link}
  {id : NodeId} {m : Message}

omit [Bincode] in
theorem Given.mono (h : Given E c id m) (hnet : c.network ⊆ c'.network) : Given E c' id m :=
  h.imp_right fun hm => hnet hm

omit [Bincode] in
theorem Link.Same.trans {link'' : Link} (h : link.Same link') (h' : link'.Same link'') : link.Same link'' := by
  refine ⟨h'.source.trans h.source, h'.dest.trans h.dest, ?_⟩
  rcases h'.greeting with heq | hnone
  · exact heq ▸ h.greeting
  · exact .inr hnone

variable [WireFormat]

theorem Moved.exists_new (h : Moved E c links links') (hi : links[i]? = some link) :
    ∃ link', links'[i]? = some link' ∧ link.Same link' := by
  have hlt : i < links'.length := (List.getElem?_eq_some_iff.mp hi).1.trans_le h.length
  exact ⟨links'[i], List.getElem?_eq_getElem hlt, h.same i _ _ hi (List.getElem?_eq_getElem hlt)⟩

theorem Link.Greets.moved (h : link.Greets links i) (hm : Moved E c links links') (hsame : link.Same link') :
    link'.Greets links' i := by
  intro greeting hgreeting
  rcases hsame.greeting with heq | hnone
  · obtain ⟨id, back, hbytes, hid, hsource, hback, hends⟩ := h greeting (heq ▸ hgreeting)
    obtain ⟨back', hback', hsame'⟩ := hm.exists_new hback
    refine ⟨id, back', hbytes, hid, hsame.source ▸ hsource, hback', ?_⟩
    rw [hsame'.source, hsame'.dest, hsame.source, hsame.dest]
    exact hends
  · cases hnone.symm.trans hgreeting

theorem Moved.trans {links'' : List Link} (h : Moved E c links links') (h' : Moved E c links' links'') :
    Moved E c links links'' := by
  refine ⟨h.length.trans h'.length, fun i link link'' hi hi'' => ?_, h'.pipes, fun i link'' hle hi'' => ?_⟩
  · obtain ⟨link', hi', hsame⟩ := h.exists_new hi
    exact hsame.trans (h'.same i _ _ hi' hi'')
  · rcases Nat.lt_or_ge i links'.length with hlt | hge
    · have hi' := List.getElem?_eq_getElem hlt
      exact (h.fresh i _ hle hi').moved h' (h'.same i _ _ hi' hi'')
    · exact h'.fresh i link'' hge hi''

theorem Piped.mono (h : Piped E c links) (hnet : c.network ⊆ c'.network) : Piped E c' links := by
  intro i link hi
  obtain ⟨hok, hfits⟩ := h i link hi
  exact ⟨hok, fun m hm id hdest => (hfits m hm id hdest).mono hnet⟩

theorem Leads.moved {senders : AList fun _ : NodeId => Nat} (h : Leads links id senders) (hm : Moved E c links links') :
    Leads links' id senders := by
  intro peer i hi
  obtain ⟨link, hlink, hsource, hdest⟩ := h peer i hi
  obtain ⟨link', hlink', hsame⟩ := hm.exists_new hlink
  exact ⟨link', hlink', hsame.source.trans hsource, hsame.dest ▸ hdest⟩

theorem Piped.moved_map {f : Nat → Link → Link} (hlen : links'.length = links.length)
    (hf : ∀ i : Nat, links'[i]? = links[i]?.map (f i))
    (hsame : ∀ (i : Nat) (link : Link), links[i]? = some link → link.Same (f i link))
    (hpipes : ∀ (i : Nat) (link : Link), links[i]? = some link →
      (f i link).pipe.Ok Wire.framing ∧ ∀ m ∈ (f i link).pipe.sent, (f i link).Fits E c m) :
    Moved E c links links' := by
  refine ⟨hlen.ge, fun i link link' hi hi' => ?_, fun i link' hi' => ?_, fun i link' hle hi' => ?_⟩
  · rw [hf, hi] at hi'
    exact Option.some.inj hi' ▸ hsame i link hi
  · rw [hf] at hi'
    obtain ⟨link, hi, rfl⟩ := Option.map_eq_some_iff.mp hi'
    exact hpipes i link hi
  · have hlt := (List.getElem?_eq_some_iff.mp hi').1
    omega

theorem Piped.moved (h : Piped E c links) : Moved E c links links := by
  refine ⟨le_rfl, fun i link link' hi hi' => ?_, h, fun i link' hle hi' => ?_⟩
  · exact Option.some.inj (hi.symm.trans hi') ▸ .refl link
  · have hlt := (List.getElem?_eq_some_iff.mp hi').1
    omega

theorem Piped.moved_modify (h : Piped E c links) (i : Nat) {f : Link → Link}
    (hsame : ∀ link : Link, links[i]? = some link → link.Same (f link))
    (hpipe : ∀ link : Link, links[i]? = some link →
      (f link).pipe.Ok Wire.framing ∧ ∀ m ∈ (f link).pipe.sent, (f link).Fits E c m) :
    Moved E c links (links.modify i f) := by
  apply Piped.moved_map (f := fun j link => if i = j then f link else link) (List.length_modify ..)
  · intro j
    exact List.getElem?_modify ..
  · intro j link hj
    split_ifs with heq
    · subst heq
      exact hsame link hj
    · exact .refl link
  · intro j link hj
    split_ifs with heq
    · subst heq
      exact hpipe link hj
    · exact h j link hj

theorem Piped.moved_set (h : Piped E c links) (hi : links[i]? = some link) (hsame : link.Same link')
    (hok : link'.pipe.Ok Wire.framing) (hfits : ∀ m ∈ link'.pipe.sent, link'.Fits E c m) :
    Moved E c links (links.set i link') := by
  have heq : links.set i link' = links.modify i fun _ => link' := by
    apply List.ext_getElem?
    intro j
    rw [List.getElem?_modify, List.getElem?_set]
    split_ifs with hj hlt
    · subst hj
      simp [hi]
    · subst hj
      exact absurd (List.getElem?_eq_some_iff.mp hi).1 hlt
    · simp
  rw [heq]
  apply h.moved_modify
  · intro x hx
    exact Option.some.inj (hi.symm.trans hx) ▸ hsame
  · exact fun _ _ => ⟨hok, hfits⟩

theorem Piped.moved_sendOn (h : Piped E c links) {senders : AList fun _ : NodeId => Nat} (hs : Leads links id senders)
    {e : Envelope} (he : e.2 ≠ .timeout → e ∈ c.network) : Moved E c links (sendOn senders links e) := by
  unfold sendOn
  split_ifs with htimeout
  · exact h.moved
  · split
    · exact h.moved
    · next i hi =>
      obtain ⟨link, hlink, -, hdest⟩ := hs _ i hi
      apply h.moved_modify
      · exact fun x _ => ⟨rfl, rfl, .inl rfl⟩
      · intro x hx
        obtain rfl := Option.some.inj (hlink.symm.trans hx)
        obtain ⟨hok, hfits⟩ := h i link hlink
        refine ⟨hok.push e.2, fun m hm j hj => ?_⟩
        rcases Pipe.mem_sent_push hm with hm | rfl
        · exact hfits m hm j hj
        · -- the link leads to where the message is for
          rcases hdest with hnode | ⟨k, hclient⟩
          · obtain rfl : e.1 = j := Party.node.inj (hnode.symm.trans hj)
            exact .inr (he htimeout)
          · cases hclient.symm.trans hj

theorem Piped.moved_outbox (h : Piped E c links) {senders : AList fun _ : NodeId => Nat} (hs : Leads links id senders)
    {outbox : List Envelope} (ho : ∀ e ∈ outbox, e.2 ≠ .timeout → e ∈ c.network) :
    Moved E c links (outbox.foldl (sendOn senders) links) := by
  induction outbox generalizing links with
  | nil => exact h.moved
  | cons e outbox ih =>
    have hfirst := h.moved_sendOn hs (ho e (List.mem_cons_self ..))
    exact hfirst.trans (ih hfirst.pipes (hs.moved hfirst) fun x hx => ho x (List.mem_cons_of_mem e hx))

theorem Piped.moved_cut (h : Piped E c links) (id : NodeId) : Moved E c links (links.map (Link.cut id)) := by
  have hcut : ∀ link : Link, link.Same (Link.cut id link) ∧
      ((Link.cut id link).pipe = link.pipe ∨ (Link.cut id link).pipe = link.pipe.shut) := by
    intro link
    unfold Link.cut
    dsimp only
    split_ifs
    · exact ⟨⟨rfl, rfl, .inr rfl⟩, .inr rfl⟩
    · exact ⟨⟨rfl, rfl, .inl rfl⟩, .inr rfl⟩
    · exact ⟨⟨rfl, rfl, .inr rfl⟩, .inl rfl⟩
    · exact ⟨⟨rfl, rfl, .inl rfl⟩, .inl rfl⟩
  apply Piped.moved_map (f := fun _ => Link.cut id) (List.length_map _)
  · exact fun i => List.getElem?_map
  · exact fun i link _ => (hcut link).1
  · intro i link hi
    obtain ⟨hsame, hpipe⟩ := hcut link
    obtain ⟨hok, hfits⟩ := h i link hi
    have hfits' : ∀ m ∈ link.pipe.sent, (Link.cut id link).Fits E c m :=
      fun m hm j hj => hfits m hm j (hsame.dest ▸ hj)
    rcases hpipe with heq | heq
    · exact heq.symm ▸ ⟨hok, hfits'⟩
    · exact heq.symm ▸ ⟨hok.shut, hfits'⟩

end Links

namespace Agrees
variable [WireFormat] {E : Message → Prop} {d : Deployment D} {c c' : Cluster D} {id : NodeId} {h : Host D}
  {links' : List Link}

theorem update (hd : Agrees E d c) (hnodes : ∀ j, c'.nodes j = if j = id then some h.node else c.nodes j)
    (hnet : c.network ⊆ c'.network) (hid : id < 2 ^ 64) (hinbox : ∀ m ∈ h.inbox, Given E c' id m)
    (hm : Moved E c' d.links links') (hsenders : Leads links' id h.activeSenders) {boot : NodeId → List NodeId}
    (hboot : c'.boot = boot) :
    Agrees E (({ d with links := links', boot := boot } : Deployment D).setHost id h) c' := by
  have hhosts : ∀ j g, (({ d with links := links', boot := boot } : Deployment D).setHost id h).hosts j = some g →
      (j = id ∧ g = h) ∨ (j ≠ id ∧ d.hosts j = some g) := by
    intro j g hg
    simp only [Deployment.setHost, Function.update_apply] at hg
    split_ifs at hg with hj
    · exact .inl ⟨hj, (Option.some.inj hg).symm⟩
    · exact .inr ⟨hj, hg⟩
  refine ⟨fun j => ?_, hboot, fun j g hg => ?_, fun j g hg => ?_, fun j g hg => ?_, hm.pipes, fun i link' hi' => ?_⟩
  · rw [hnodes j]
    by_cases hj : j = id
    · subst hj
      simp [Deployment.setHost]
    · simp [Deployment.setHost, hj, hd.nodes j]
  · rcases hhosts j g hg with ⟨rfl, rfl⟩ | ⟨-, hg⟩
    · exact hid
    · exact hd.words j g hg
  · rcases hhosts j g hg with ⟨rfl, rfl⟩ | ⟨-, hg⟩
    · exact hinbox
    · exact fun m hm' => (hd.inbox j g hg m hm').mono hnet
  · rcases hhosts j g hg with ⟨rfl, rfl⟩ | ⟨-, hg⟩
    · exact hsenders
    · exact (hd.senders j g hg).moved hm
  · rcases Nat.lt_or_ge i d.links.length with hlt | hge
    · have hi := List.getElem?_eq_getElem hlt
      exact (hd.greets i _ hi).moved hm (hm.same i _ _ hi hi')
    · exact hm.fresh i link' hge hi'

end Agrees

/-! The actions of the nodes. -/

def Deployment.actions (d : Deployment D) : Happening → List Action
  | .work id work now => match (d.hosts id).bind (·.input work) with
    | some input => [.process id input now, .flush id]
    | none => []
  | .crash id none now => [.crash id none now]
  | .crash id (some (work, k)) now => match (d.hosts id).bind (·.input work) with
    | some input => [.crash id (some (input, k)) now]
    | none => []
  | .join id peers now => [.join id peers now]
  | _ => []

def Deployment.trace [FloatText] [WireFormat] (config : Config) : Deployment D → List Happening → List Action
  | _, [] => []
  | d, x :: xs => d.actions x ++ ((d.step config x).map fun d' => trace config d' xs).getD []

def Happening.words : Happening → Bool
  | .call _ id _ | .join id _ _ => id < 2 ^ 64
  | _ => true

def Happening.Within (E : Message → Prop) : Happening → Prop
  | .submit _ m => m.external = true → E m
  | .work _ (.request request) _ | .crash _ (some (.request request, _)) _ => ∀ m, request.input = .message m → E m
  | _ => True

namespace Agrees
variable [WireFormat] {E : Message → Prop} {d d' : Deployment D} {c : Cluster D} {config : Config} {x : Happening}

theorem available (hd : Agrees E d c) (hE : ∀ m, E m → m.external = true) {id : NodeId} {h : Host D} {work : Work}
    {input : RaftNode.Input} (hh : d.hosts id = some h) (hin : h.input work = some input)
    (hwork : ∀ request m, work = .request request → request.input = .message m → E m) :
    c.available id input = true := by
  have hgiven : ∀ m, input = .message m → Given E c id m := by
    rintro m rfl
    cases work with
    | message =>
      obtain ⟨m', hm', heq⟩ := Option.map_eq_some_iff.mp hin
      obtain rfl := RaftNode.Input.message.inj heq
      exact hd.inbox id h hh m' (List.mem_of_head? hm')
    | request request => exact .inl (hwork request m rfl (Option.some.inj hin))
    | tick => cases hin
  cases input with
  | message m =>
    rcases hgiven m rfl with hm | hm
    · exact Bool.or_eq_true_iff.mpr (.inl (hE m hm))
    · exact Bool.or_eq_true_iff.mpr (.inr (decide_eq_true hm))
  | tick => rfl
  | request request => rfl

theorem work [FloatText] (hd : Agrees E d c) (hE : ∀ m, E m → m.external = true) {id : NodeId} {w : Work}
    {now : Instant} (hx : (Happening.work id w now).Within E) (hs : d.step config (.work id w now) = some d') :
    ∃ c', Cluster.exec config c (d.actions (.work id w now)) = some c' ∧ Agrees E d' c' := by
  obtain ⟨h, hh, hs⟩ := Option.bind_eq_some_iff.mp hs
  obtain ⟨input, hin, hs⟩ := Option.bind_eq_some_iff.mp hs
  obtain ⟨n, hn, hs⟩ := Option.bind_eq_some_iff.mp hs
  obtain rfl := Option.some.inj hs
  have hnode : c.nodes id = some h.node := by rw [hd.nodes id, hh, Option.map_some]
  have hav : c.available id input = true := by
    apply hd.available hE hh hin
    rintro request m rfl hm
    exact hx m hm
  have hprocess : Cluster.step config c (.process id input now) = some (c.setNode id n) :=
    Cluster.step_process.mpr ⟨h.node, hnode, hav, n, hn, rfl⟩
  obtain ⟨c', hflush, hnodes, hboot, hnet⟩ : ∃ c', Cluster.step config (c.setNode id n) (.flush id) = some c' ∧
      (∀ j, c'.nodes j = if j = id then some (h.done w n).node else c.nodes j) ∧ c'.boot = c.boot ∧
      c'.network = c.network ++ n.outbox.filter (fun e => e.2 ≠ .timeout) := by
    refine ⟨_, Cluster.step_flush.mpr ⟨n, c.setNode_self id n, rfl⟩, fun j => ?_, rfl, rfl⟩
    simp only [Cluster.setNode, Function.update_apply]
    split_ifs
    · rfl
    · rfl
  refine ⟨c', ?_, ?_⟩
  · rw [Deployment.actions, hh, Option.bind_some, hin]
    change (Cluster.step config c (.process id input now)).bind _ = _
    rw [hprocess, Option.bind_some]
    change (Cluster.step config (c.setNode id n) (.flush id)).bind _ = _
    rw [hflush]
    rfl
  · have hsub : c.network ⊆ c'.network := hnet ▸ List.subset_append_left ..
    have hsent : ∀ e ∈ n.outbox, e.2 ≠ .timeout → e ∈ c'.network := by
      intro e he hne
      rw [hnet]
      exact List.mem_append_right _ (List.mem_filter.mpr ⟨he, decide_eq_true hne⟩)
    have hsenders := hd.senders id h hh
    have hmoved := (hd.pipes.mono hsub).moved_outbox hsenders hsent
    refine hd.update hnodes hsub (hd.words id h hh) (fun m hm => ?_) hmoved (hsenders.moved hmoved)
      (hboot.trans hd.boot)
    have hinbox : m ∈ h.inbox := by
      unfold Host.done at hm
      dsimp only at hm
      split_ifs at hm
      · exact List.mem_of_mem_tail hm
      · exact hm
    exact (hd.inbox id h hh m hinbox).mono hsub

theorem stay (hd : Agrees E d c) {id : NodeId} {h h' : Host D} (hh : d.hosts id = some h) (hnode : h'.node = h.node)
    (hinbox : ∀ m ∈ h'.inbox, Given E c id m) {links' : List Link} (hm : Moved E c d.links links')
    (hsenders : Leads links' id h'.activeSenders) :
    Agrees E (({ d with links := links' } : Deployment D).setHost id h') c := by
  refine hd.update (fun j => ?_) (List.Subset.refl _) (hd.words id h hh) hinbox hm hsenders hd.boot
  split_ifs with hj
  · rw [hj, hd.nodes id, hh, hnode, Option.map_some]
  · rfl

theorem relink (hd : Agrees E d c) {links' : List Link} (hm : Moved E c d.links links') :
    Agrees E { d with links := links' } c := by
  refine ⟨hd.nodes, hd.boot, hd.words, hd.inbox, fun j g hg => (hd.senders j g hg).moved hm, hm.pipes, ?_⟩
  intro i link' hi'
  rcases Nat.lt_or_ge i d.links.length with hlt | hge
  · have hi := List.getElem?_eq_getElem hlt
    exact (hd.greets i _ hi).moved hm (hm.same i _ _ hi hi')
  · exact hm.fresh i link' hge hi'

omit [Bincode] [WireFormat] in
theorem erase_leads {links : List Link} {id peer : NodeId} {senders : AList fun _ : NodeId => Nat}
    (h : Leads links id senders) : Leads links id (senders.erase peer) := by
  intro p i hi
  by_cases hp : p = peer
  · rw [hp, AList.lookup_erase] at hi
    cases hi
  · rw [AList.lookup_erase_ne hp] at hi
    exact h p i hi

omit [Bincode] [WireFormat] in
theorem insert_leads {links : List Link} {id peer : NodeId} {senders : AList fun _ : NodeId => Nat} {i : Nat}
    {link : Link} (h : Leads links id senders) (hi : links[i]? = some link) (hto : link.LeadsTo id peer) :
    Leads links id (senders.insert peer i) := by
  intro p j hj
  by_cases hp : p = peer
  · subst hp
    rw [AList.lookup_insert] at hj
    obtain rfl := Option.some.inj hj
    exact ⟨link, hi, hto⟩
  · rw [AList.lookup_insert_ne hp] at hj
    exact h p j hj

theorem moved_connect (hd : Agrees E d c) {caller : Party} {id callee : NodeId} (hid : id < 2 ^ 64)
    (hcaller : caller = .node id ∨ ∃ k, caller = .client k) : Moved E c d.links (d.connect caller id callee).links := by
  have hnew : ∀ (i : Nat) (link : Link), d.links.length ≤ i → (d.connect caller id callee).links[i]? = some link →
      (i = d.links.length ∧ link = ⟨caller, .node callee, some (Wire.beBytes 8 id), none, .fresh true, false⟩) ∨
      (i = d.links.length + 1 ∧ link = ⟨.node callee, caller, none, some callee, .fresh false, true⟩) := by
    intro i link hle hi
    rw [Deployment.connect, List.getElem?_append_right hle] at hi
    have hlt := (List.getElem?_eq_some_iff.mp hi).1
    have hcases : i - d.links.length = 0 ∨ i - d.links.length = 1 := by
      simp only [List.length_cons, List.length_nil] at hlt
      omega
    rcases hcases with h0 | h1
    · rw [h0] at hi
      exact .inl ⟨by omega, (Option.some.inj hi).symm⟩
    · rw [h1] at hi
      exact .inr ⟨by omega, (Option.some.inj hi).symm⟩
  have hold : ∀ i, i < d.links.length → (d.connect caller id callee).links[i]? = d.links[i]? :=
    fun i hi => List.getElem?_append_left hi
  refine ⟨by simp [Deployment.connect], fun i link link' hi hi' => ?_, fun i link hi => ?_, fun i link hle hi => ?_⟩
  · rw [hold i (List.getElem?_eq_some_iff.mp hi).1] at hi'
    exact Option.some.inj (hi.symm.trans hi') ▸ .refl link
  · rcases Nat.lt_or_ge i d.links.length with hlt | hge
    · rw [hold i hlt] at hi
      exact hd.pipes i link hi
    · rcases hnew i link hge hi with ⟨-, rfl⟩ | ⟨-, rfl⟩
      · exact ⟨Pipe.ok_fresh true, fun m hm => absurd hm List.not_mem_nil⟩
      · exact ⟨Pipe.ok_fresh false, fun m hm => absurd hm List.not_mem_nil⟩
  · rcases hnew i link hle hi with ⟨rfl, rfl⟩ | ⟨-, rfl⟩
    · intro greeting hgreeting
      obtain rfl := Option.some.inj hgreeting
      refine ⟨id, ⟨.node callee, caller, none, some callee, .fresh false, true⟩, rfl, hid, hcaller, ?_, rfl, rfl⟩
      have hone : d.links.length + 1 - d.links.length = 1 := by omega
      rw [Deployment.connect, List.getElem?_append_right (Nat.le_succ _), hone]
      rfl
    · intro greeting hgreeting
      cases hgreeting

theorem dial [FloatText] (hd : Agrees E d c) {caller callee : NodeId}
    (hs : d.step config (.dial caller callee) = some d') :
    Agrees E d' c := by
  obtain ⟨-, -, hs⟩ := Option.bind_eq_some_iff.mp hs
  obtain ⟨h, hh, hs⟩ := Option.bind_eq_some_iff.mp hs
  obtain rfl := Option.some.inj hs
  have hmoved : Moved E c d.links (d.connect (.node caller) caller callee).links :=
    hd.moved_connect (hd.words caller h hh) (.inl rfl)
  refine hd.stay hh ?_ ?_ hmoved ?_
  · rfl
  · exact hd.inbox caller h hh
  · have hlink : (d.connect (.node caller) caller callee).links[d.links.length]? =
        some ⟨.node caller, .node callee, some (Wire.beBytes 8 caller), none, .fresh true, false⟩ := by
      simp [Deployment.connect]
    exact insert_leads ((hd.senders caller h hh).moved hmoved) hlink ⟨rfl, .inl rfl⟩

theorem accept [FloatText] (hd : Agrees E d c) {i : Nat} (hs : d.step config (.accept i) = some d') :
    Agrees E d' c := by
  obtain ⟨link, hi, hs⟩ := Option.bind_eq_some_iff.mp hs
  obtain ⟨greeting, hgreeting, hs⟩ := Option.bind_eq_some_iff.mp hs
  split at hs
  · next id hdest =>
    obtain ⟨h, hh, hs⟩ := Option.bind_eq_some_iff.mp hs
    obtain ⟨⟨idBuf, rest⟩, hread, hs⟩ := Option.bind_eq_some_iff.mp hs
    obtain rfl := Option.some.inj hs
    obtain ⟨gid, back, rfl, hgid, hsource, hback, hends⟩ := hd.greets i link hi greeting hgreeting
    rw [readExact_append_of_length (Wire.beBytes_length 8 gid)] at hread
    obtain ⟨rfl, -⟩ := Prod.mk.inj (Option.some.inj hread)
    have hpeer : Wire.beNat (Wire.beBytes 8 gid) = gid := by
      rw [Wire.beNat, Wire.beBytes, List.reverse_reverse]
      exact leNat_leBytes (lt_of_lt_of_eq hgid (by norm_num))
    simp only [hpeer]
    have hfirst := hd.pipes.moved_modify i
      (f := fun link => { link with greeting := none, peer := some gid, reading := true })
      (fun x _ => ⟨rfl, rfl, .inr rfl⟩) fun x hx => hd.pipes i x hx
    have hmoved := hfirst.trans (hfirst.pipes.moved_modify (i + 1) (f := fun back => { back with pipe := .fresh true })
      (fun x _ => ⟨rfl, rfl, .inl rfl⟩) fun x _ => ⟨Pipe.ok_fresh true, fun m hm => absurd hm List.not_mem_nil⟩)
    obtain ⟨back', hback', hsame⟩ := hmoved.exists_new hback
    refine hd.stay hh ?_ ?_ hmoved ?_
    · rfl
    · exact hd.inbox id h hh
    · refine insert_leads ((hd.senders id h hh).moved hmoved) hback' ⟨?_, ?_⟩
      · rw [hsame.source, hends.1, hdest]
      · rw [hsame.dest, hends.2]
        exact hsource
  · cases hs

theorem read [FloatText] (hd : Agrees E d c) {i : Nat} (hs : d.step config (.read i) = some d') : Agrees E d' c := by
  obtain ⟨link, hi, hs⟩ := Option.bind_eq_some_iff.mp hs
  obtain ⟨-, -, hs⟩ := Option.bind_eq_some_iff.mp hs
  obtain ⟨⟨m, pipe⟩, hread, hs⟩ := Option.bind_eq_some_iff.mp hs
  obtain ⟨⟨wired, torn, hsound⟩, hfits⟩ := hd.pipes i link hi
  obtain ⟨rest, rfl, hsound', hsent, -⟩ := hsound.read hread
  have hmoved : Moved E c d.links (d.links.set i { link with pipe := pipe }) := by
    refine hd.pipes.moved_set hi ⟨rfl, rfl, .inl rfl⟩ ⟨rest, torn, hsound'⟩ fun x hx => ?_
    exact hfits x (hsent ▸ hx)
  have hmem : m ∈ link.pipe.sent := hsound.order.subset (by simp)
  dsimp only at hs
  split at hs
  · obtain rfl := Option.some.inj hs
    exact hd.relink hmoved
  · next id hdest =>
    obtain ⟨h, hh, hs⟩ := Option.bind_eq_some_iff.mp hs
    obtain rfl := Option.some.inj hs
    refine hd.stay hh ?_ (fun x hx => ?_) hmoved ((hd.senders id h hh).moved hmoved)
    · rfl
    rcases List.mem_append.mp hx with hx | hx
    · exact hd.inbox id h hh x hx
    · obtain rfl := List.mem_singleton.mp hx
      exact hfits x hmem id hdest

theorem repipe (hd : Agrees E d c) {i : Nat} {link : Link} {pipe : Pipe Message} (hi : d.links[i]? = some link)
    (hok : pipe.Ok Wire.framing) (hsent : pipe.sent = link.pipe.sent) :
    Agrees E { d with links := d.links.set i { link with pipe := pipe } } c := by
  refine hd.relink (hd.pipes.moved_set hi ⟨rfl, rfl, .inl rfl⟩ hok fun m hm => ?_)
  exact (hd.pipes i link hi).2 m (hsent ▸ hm)

theorem hangUp [FloatText] (hd : Agrees E d c) {i : Nat} (hs : d.step config (.hangUp i) = some d') :
    Agrees E d' c := by
  obtain ⟨link, hi, hs⟩ := Option.bind_eq_some_iff.mp hs
  obtain ⟨-, -, hs⟩ := Option.bind_eq_some_iff.mp hs
  have hmoved : Moved E c d.links (d.links.set i { link with reading := false }) :=
    hd.pipes.moved_set hi ⟨rfl, rfl, .inl rfl⟩ (hd.pipes i link hi).1 (hd.pipes i link hi).2
  dsimp only at hs
  split at hs
  · next id peer hdest hpeer =>
    obtain ⟨h, hh, hs⟩ := Option.bind_eq_some_iff.mp hs
    obtain rfl := Option.some.inj hs
    refine hd.stay hh ?_ ?_ hmoved ?_
    · rfl
    · exact hd.inbox id h hh
    · exact erase_leads ((hd.senders id h hh).moved hmoved)
  · obtain rfl := Option.some.inj hs
    exact hd.relink hmoved

theorem boots [FloatText] (hd : Agrees E d c) {id : NodeId} (hid : id < 2 ^ 64) {dir : Dir D} {now : Instant}
    (hs : d.boots config id dir now = some d') : ∃ c', c.recover config id dir now = some c' ∧ Agrees E d' c' := by
  obtain ⟨n, hn, rfl⟩ := Option.map_eq_some_iff.mp hs
  refine ⟨c.setNode id n, ?_, ?_⟩
  · rw [Cluster.recover, hd.boot, hn, Option.map_some]
  · have hpiped : Piped E (c.setNode id n) d.links := hd.pipes.mono (List.Subset.refl _)
    have hmoved := hpiped.moved_cut id
    have hnodes : ∀ j, (c.setNode id n).nodes j = if j = id then some n else c.nodes j := fun j => by
      simp only [Cluster.setNode, Function.update_apply]
    refine hd.update (h := ⟨n, [], ∅, []⟩) hnodes (List.Subset.refl _) hid ?_ hmoved ?_ hd.boot
    · exact fun m hm => absurd hm List.not_mem_nil
    · intro peer i hi
      cases hi

theorem crash [FloatText] (hd : Agrees E d c) (hE : ∀ m, E m → m.external = true) {id : NodeId}
    {inside : Option (Work × Nat)} {now : Instant} (hx : (Happening.crash id inside now).Within E)
    (hs : d.step config (.crash id inside now) = some d') :
    ∃ c', Cluster.exec config c (d.actions (.crash id inside now)) = some c' ∧ Agrees E d' c' := by
  cases inside with
  | none =>
    obtain ⟨h, hh, hs⟩ := Option.bind_eq_some_iff.mp hs
    obtain ⟨c', hc', hd'⟩ := hd.boots (hd.words id h hh) hs
    refine ⟨c', ?_, hd'⟩
    change (Cluster.step config c (.crash id none now)).bind _ = _
    rw [Cluster.step, hd.nodes id, hh]
    exact congrArg (Option.bind · _) hc'
  | some p =>
    obtain ⟨w, k⟩ := p
    obtain ⟨h, hh, hs⟩ := Option.bind_eq_some_iff.mp hs
    obtain ⟨input, hin, hs⟩ := Option.bind_eq_some_iff.mp hs
    obtain ⟨n, hn, hs⟩ := Option.bind_eq_some_iff.mp hs
    obtain ⟨point, hpoint, hs⟩ := Option.bind_eq_some_iff.mp hs
    obtain ⟨c', hc', hd'⟩ := hd.boots (hd.words id h hh) hs
    have hav : c.available id input = true := by
      apply hd.available hE hh hin
      rintro request m rfl hm
      exact hx m hm
    have hcrash : Cluster.step config c (.crash id (some (input, k)) now) = some c' := by
      simp only [Cluster.step, hd.nodes id, hh, hav, hn, hpoint, Option.map_some, Option.bind_eq_bind, Option.bind_some,
        guard, if_true, pure]
      exact hc'
    refine ⟨c', ?_, hd'⟩
    rw [Deployment.actions, hh, Option.bind_some, hin]
    change (Cluster.step config c (.crash id (some (input, k)) now)).bind _ = _
    rw [hcrash]
    rfl

theorem join [FloatText] (hd : Agrees E d c) {id : NodeId} {peers : List NodeId} {now : Instant} (hid : id < 2 ^ 64)
    (hs : d.step config (.join id peers now) = some d') :
    ∃ c', Cluster.exec config c (d.actions (.join id peers now)) = some c' ∧ Agrees E d' c' := by
  rw [Deployment.step] at hs
  split_ifs at hs with hnone
  have hd₁ : Agrees E ({ d with boot := Function.update d.boot id peers } : Deployment D)
      { c with boot := Function.update c.boot id peers } :=
    ⟨hd.nodes, by rw [hd.boot], hd.words, hd.inbox, hd.senders, hd.pipes, hd.greets⟩
  obtain ⟨c', hc', hd'⟩ := hd₁.boots hid hs
  refine ⟨c', ?_, hd'⟩
  have hjoin : Cluster.step config c (.join id peers now) = some c' := by
    have hfree : ¬(c.nodes id).isSome := by simpa [hd.nodes id] using hnone
    rw [Cluster.step, if_neg hfree]
    exact hc'
  change (Cluster.step config c (.join id peers now)).bind _ = _
  rw [hjoin]
  rfl

/-- Every step of the deployment is what its nodes do in the cluster. -/
theorem step [FloatText] (hd : Agrees E d c) (hE : ∀ m, E m → m.external = true) (hwords : x.words = true)
    (hx : x.Within E)
    (hs : d.step config x = some d') : ∃ c', Cluster.exec config c (d.actions x) = some c' ∧ Agrees E d' c' := by
  cases x with
  | work id w now => exact hd.work hE hx hs
  | dial caller callee => exact ⟨c, rfl, hd.dial hs⟩
  | call client id callee =>
    obtain rfl := Option.some.inj hs
    exact ⟨c, rfl, hd.relink (hd.moved_connect (of_decide_eq_true hwords) (.inr ⟨client, rfl⟩))⟩
  | accept i => exact ⟨c, rfl, hd.accept hs⟩
  | submit i m =>
    obtain ⟨link, hi, hs⟩ := Option.bind_eq_some_iff.mp hs
    split at hs
    · obtain ⟨_, hguard, hs⟩ := Option.bind_eq_some_iff.mp hs
      obtain rfl := Option.some.inj hs
      have hexternal : m.external = true := by
        by_contra hnot
        simp [guard, hnot] at hguard
      refine ⟨c, rfl, hd.relink (hd.pipes.moved_modify i (fun y _ => ⟨rfl, rfl, .inl rfl⟩) fun y hy => ?_)⟩
      obtain ⟨hok, hfits⟩ := hd.pipes i y hy
      refine ⟨hok.push m, fun b hb j hj => ?_⟩
      rcases Pipe.mem_sent_push hb with hb | rfl
      · exact hfits b hb j hj
      · exact .inl (hx hexternal)
    · cases hs
  | write i =>
    obtain ⟨link, hi, hs⟩ := Option.bind_eq_some_iff.mp hs
    obtain ⟨pipe, hpipe, hs⟩ := Option.bind_eq_some_iff.mp hs
    obtain rfl := Option.some.inj hs
    exact ⟨c, rfl, hd.repipe hi ((hd.pipes i link hi).1.write hpipe) (Pipe.write_sent hpipe)⟩
  | tear i k =>
    obtain ⟨link, hi, hs⟩ := Option.bind_eq_some_iff.mp hs
    obtain ⟨pipe, hpipe, hs⟩ := Option.bind_eq_some_iff.mp hs
    obtain rfl := Option.some.inj hs
    exact ⟨c, rfl, hd.repipe hi ((hd.pipes i link hi).1.tear hpipe) (Pipe.tear_sent hpipe)⟩
  | read i => exact ⟨c, rfl, hd.read hs⟩
  | hangUp i => exact ⟨c, rfl, hd.hangUp hs⟩
  | unregister id peer =>
    obtain ⟨h, hh, hs⟩ := Option.bind_eq_some_iff.mp hs
    obtain rfl := Option.some.inj hs
    refine ⟨c, rfl, hd.stay hh ?_ ?_ hd.pipes.moved ?_⟩
    · rfl
    · exact hd.inbox id h hh
    · exact erase_leads (hd.senders id h hh)
  | crash id inside now => exact hd.crash hE hx hs
  | join id peers now => exact hd.join (of_decide_eq_true hwords) hs

theorem exec [FloatText] (hd : Agrees E d c) (hE : ∀ m, E m → m.external = true) {run : List Happening}
    (hwords : ∀ x ∈ run, x.words = true) (hwithin : ∀ x ∈ run, x.Within E) (hs : d.exec config run = some d') :
    ∃ c', Cluster.exec config c (d.trace config run) = some c' ∧ Agrees E d' c' := by
  induction run generalizing d c with
  | nil =>
    cases hs
    exact ⟨c, rfl, hd⟩
  | cons x run ih =>
    obtain ⟨d₁, hs₁, hs⟩ := Option.bind_eq_some_iff.mp hs
    obtain ⟨c₁, hc₁, hd₁⟩ := hd.step hE (hwords x (List.mem_cons_self ..)) (hwithin x (List.mem_cons_self ..)) hs₁
    obtain ⟨c', hc', hd'⟩ := ih hd₁ (fun y hy => hwords y (List.mem_cons_of_mem x hy))
      (fun y hy => hwithin y (List.mem_cons_of_mem x hy)) hs
    refine ⟨c', ?_, hd'⟩
    rw [Deployment.trace, hs₁, Cluster.exec_append, hc₁]
    exact hc'

theorem start [FloatText] (E : Message → Prop) (M : Membership) (hM : ∀ id ∈ M.members, id < 2 ^ 64) (config : Config)
    (now : Instant) : Agrees E (Deployment.start M config now : Deployment D) (M.start config now) := by
  have hmem : ∀ id h, (Deployment.start M config now : Deployment D).hosts id = some h →
      id ∈ M.members ∧ h.inbox = [] ∧ h.activeSenders = ∅ := by
    intro id h hh
    change (if id ∈ M.members then _ else _) = _ at hh
    split_ifs at hh with hid
    obtain ⟨n, -, rfl⟩ := Option.map_eq_some_iff.mp hh
    exact ⟨hid, rfl, rfl⟩
  refine ⟨fun id => ?_, rfl, fun id h hh => hM id (hmem id h hh).1, fun id h hh m hm => ?_,
    fun id h hh peer i hi => ?_, fun i link hi => (nomatch hi), fun i link hi => (nomatch hi)⟩
  · change (if id ∈ M.members then _ else _) = Option.map _ (if id ∈ M.members then _ else _)
    split_ifs
    · rw [Option.map_map]
      exact Option.map_id'.symm
    · rfl
  · rw [(hmem id h hh).2.1] at hm
    cases hm
  · rw [(hmem id h hh).2.2] at hi
    cases hi

end Agrees

end Deployment
end KvRaft
