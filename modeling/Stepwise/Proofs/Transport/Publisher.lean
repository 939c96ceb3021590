import Mathlib.Data.List.Nodup
import Stepwise.Transport.Amqp

/-!
# The publisher of a link

A link publishes and declares over one connection, which it opens when it needs one and drops after
a failure.  `Link.Works` says what a stretch of such work comes to: how many failures it met, which
messages it sent, and that the connections that are open elsewhere stay as they are.  There is one
lemma for each function of the link, and `Works.trans` puts them together.

`Link.Tries` lists the outcomes of attempts that follow each other; `exists_tries` says that a
publish is one or two of them.
-/

namespace Stepwise

/-! ## What a server has done and will do -/

/-- What was handed to a server. -/
def NetworkEvent.publication? : NetworkEvent → Option Publication
  | published _ p => some p
  | _ => none

namespace Network

/-- What a server was handed, in order. -/
def published (n : Network) : List Publication := n.log.filterMap NetworkEvent.publication?

/-- The failures of a kind that are still to come. -/
def owed (h : Hazard) (n : Network) : Nat := (n.due h).count true

/-- The failures to come that an attempt to publish may meet: one fails with the first of them. -/
def hindrances (n : Network) : Nat := n.owed .connect + n.owed .channel + n.owed .publish

/-- The open connections are different ones of those that were opened. -/
structure Tracks (n : Network) : Prop where
  nodup : n.live.Nodup
  le : ∀ c ∈ n.live, c ≤ n.opened

theorem Tracks.succ_notMem {n : Network} (tracks : n.Tracks) : n.opened + 1 ∉ n.live :=
  fun hmem => Nat.not_succ_le_self _ (tracks.le _ hmem)

/-- A server with one more connection. -/
theorem Tracks.opening {n : Network} (tracks : n.Tracks) :
    ({ n with opened := n.opened + 1, live := n.live ++ [n.opened + 1] } : Network).Tracks := by
  refine ⟨List.nodup_append.2 ⟨tracks.nodup, List.nodup_singleton _, ?_⟩, fun c hc => ?_⟩
  · rintro a ha b hb rfl
    exact tracks.succ_notMem (List.mem_singleton.1 hb ▸ ha)
  · rcases List.mem_append.1 hc with hc | hc
    · exact Nat.le_succ_of_le (tracks.le c hc)
    · exact Nat.le_of_eq (List.mem_singleton.1 hc)

/-- One server is another after a request of a kind, up to what the request itself does. -/
structure Meets (h : Hazard) (fails : Bool) (n n' : Network) : Prop where
  opened : n'.opened = n.opened
  live : n'.live = n.live
  waiting : n'.waiting = n.waiting
  log : n'.log = n.log
  owed : ∀ k, n.owed k = n'.owed k + if fails = true ∧ k = h then 1 else 0
  due : ∀ k, k ≠ h → n'.due k = n.due k
  expected : fails = true → ∃ rest, n.due h = true :: rest

variable {n n' : Network} {h : Hazard} {fails : Bool} {c : Nat} {m : Message}

theorem exists_meets (n : Network) (h : Hazard) :
    ∃ fails n', n.meets h = (fails, n') ∧ Meets h fails n n' := by
  unfold meets
  split
  · exact ⟨_, _, rfl, rfl, rfl, rfl, rfl, fun k => by simp, fun _ _ => rfl, by simp⟩
  · next first rest due =>
    refine ⟨_, _, rfl, rfl, rfl, rfl, rfl, fun k => ?_, fun k ne => if_neg ne, ?_⟩
    · by_cases same : k = h
      · subst same
        cases first <;> simp [Network.owed, due]
      · simp [Network.owed, same]
    · rintro rfl
      exact ⟨rest, due⟩

theorem Meets.published (met : Meets h fails n n') : n'.published = n.published := by
  rw [Network.published, met.log, Network.published]

theorem Meets.tracks (met : Meets h fails n n') (tracks : n.Tracks) : n'.Tracks :=
  ⟨met.live ▸ tracks.nodup, by rw [met.live, met.opened]; exact tracks.le⟩

/-- A request that succeeds, or that no attempt to publish depends on, is no hindrance. -/
theorem Meets.hindrances_eq (met : Meets h fails n n')
    (harmless : fails = false ∨ h = .declare) : n.hindrances = n'.hindrances := by
  simp only [hindrances, met.owed]
  rcases harmless with rfl | rfl <;> simp

/-- A failure to connect, to open a channel or to publish is one. -/
theorem Meets.hindrances_succ (met : Meets h true n n')
    (harmful : h = .connect ∨ h = .channel ∨ h = .publish) :
    n.hindrances = n'.hindrances + 1 := by
  simp only [hindrances, met.owed]
  rcases harmful with rfl | rfl | rfl <;> simp <;> omega

/-- One server is another after some connections were closed. -/
structure Sheds (n n' : Network) : Prop where
  opened : n'.opened = n.opened
  live : n'.live.Sublist n.live
  waiting : n'.waiting = n.waiting
  published : n'.published = n.published
  due : ∀ k, k ≠ .close → n'.due k = n.due k

theorem sheds_refl (n : Network) : Sheds n n :=
  ⟨rfl, List.Sublist.refl _, rfl, rfl, fun _ _ => rfl⟩

theorem Sheds.trans {n'' : Network} (first : Sheds n n') (second : Sheds n' n'') : Sheds n n'' where
  opened := second.opened.trans first.opened
  live := second.live.trans first.live
  waiting := second.waiting.trans first.waiting
  published := second.published.trans first.published
  due := fun k other => (second.due k other).trans (first.due k other)

theorem Sheds.tracks (sheds : Sheds n n') (tracks : n.Tracks) : n'.Tracks :=
  ⟨sheds.live.nodup tracks.nodup, fun c hc => sheds.opened ▸ tracks.le c (sheds.live.subset hc)⟩

theorem Sheds.hindrances (sheds : Sheds n n') : n'.hindrances = n.hindrances := by
  simp [Network.hindrances, Network.owed, sheds.due]

theorem sheds_close (n : Network) (c : Nat) : Sheds n (n.close c) := by
  unfold close
  split
  · obtain ⟨fails, n', met, close⟩ := n.exists_meets .close
    rw [met]
    refine ⟨close.opened, ?_, close.waiting, ?_, close.due⟩
    · rw [← close.live]
      exact List.filter_sublist
    · rw [← close.published, Network.published, note, List.filterMap_append]
      exact List.append_nil _
  · exact sheds_refl n

theorem live_close (n : Network) (c : Nat) : (n.close c).live = n.live.filter (· != c) := by
  unfold close
  split
  · obtain ⟨fails, n', met, close⟩ := n.exists_meets .close
    rw [met]
    exact congrArg (List.filter (· != c)) close.live
  · next closed =>
    refine (List.filter_eq_self.2 fun a ha => ?_).symm
    have other : a ≠ c := by
      rintro rfl
      exact closed (List.contains_iff_mem.2 ha)
    simpa using other

end Network

namespace Link

variable {η : Type} {l l' l'' : Link η} {n n' n'' : Network} {m : Message} {queue : String}
variable {failed failed' : Nat} {sent sent' : List Message}

/-! ## Work -/

/-- The connection that a link publishes over. -/
def connection? (l : Link η) : Option Nat := l.publisher.map (·.connection)

/-- The open connections that are not the one a link publishes over. -/
def elsewhere (l : Link η) (n : Network) : List Nat :=
  n.live.filter fun c => l.connection? ≠ some c

theorem elsewhere_of_none (none : l.publisher = .none) : l.elsewhere n = n.live :=
  List.filter_eq_self.2 fun c _ => by simp [connection?, none]

/-- What a stretch of work of a link's publisher comes to: the failures that it met on the way to a
publish, and the messages that it sent.  If it has another connection afterwards, that was opened
meanwhile, and of the connections elsewhere none was opened or closed. -/
structure Works (failed : Nat) (sent : List Message) (l : Link η) (n : Network) (l' : Link η)
    (n' : Network) : Prop where
  link : l' = { l with publisher := l'.publisher }
  tracks : n'.Tracks
  opened : n.opened ≤ n'.opened
  fresh : ∀ c, l'.connection? = some c →
    l.connection? = some c ∨ n.opened < c ∧ c ≤ n'.opened
  elsewhere : l'.elsewhere n' = l.elsewhere n
  hindrances : n.hindrances = n'.hindrances + failed
  published : n'.published = n.published ++ sent.map Publication.persistent
  waiting : n'.waiting = n.waiting ++ sent

theorem works_refl (tracks : n.Tracks) : Works 0 [] l n l n :=
  ⟨rfl, tracks, Nat.le_refl _, fun _ own => Or.inl own, rfl, rfl, by simp, by simp⟩

theorem Works.trans (first : Works failed sent l n l' n')
    (second : Works failed' sent' l' n' l'' n'') :
    Works (failed + failed') (sent ++ sent') l n l'' n'' where
  link := by rw [second.link, first.link]
  tracks := second.tracks
  opened := Nat.le_trans first.opened second.opened
  fresh := by
    intro c own
    rcases second.fresh c own with own | ⟨after, before⟩
    · rcases first.fresh c own with own | ⟨after, before⟩
      · exact Or.inl own
      · exact Or.inr ⟨after, Nat.le_trans before second.opened⟩
    · exact Or.inr ⟨Nat.lt_of_le_of_lt first.opened after, before⟩
  elsewhere := second.elsewhere.trans first.elsewhere
  hindrances := by rw [first.hindrances, second.hindrances]; omega
  published := by rw [second.published, first.published, List.map_append, List.append_assoc]
  waiting := by rw [second.waiting, first.waiting, List.append_assoc]

/-- A request that leaves the connections and the messages alone is work, too. -/
theorem works_of_meets {h : Hazard} {fails : Bool} (met : Network.Meets h fails n n')
    (tracks : n.Tracks) (owes : n.hindrances = n'.hindrances + failed) :
    Works failed [] l n l n' where
  link := rfl
  tracks := met.tracks tracks
  opened := Nat.le_of_eq met.opened.symm
  fresh := fun _ own => Or.inl own
  elsewhere := by rw [elsewhere, met.live, elsewhere]
  hindrances := owes
  published := by rw [met.published, List.map_nil, List.append_nil]
  waiting := by rw [met.waiting, List.append_nil]

theorem works_of_harmless {h : Hazard} {fails : Bool} (met : Network.Meets h fails n n')
    (tracks : n.Tracks) (harmless : fails = false ∨ h = .declare) :
    Works 0 [] l n l n' :=
  works_of_meets met tracks (met.hindrances_eq harmless)

theorem works_of_harmful {h : Hazard} (met : Network.Meets h true n n') (tracks : n.Tracks)
    (harmful : h = .connect ∨ h = .channel ∨ h = .publish) : Works 1 [] l n l n' :=
  works_of_meets met tracks (met.hindrances_succ harmful)

/-- An entry of the log that is no publication changes nothing that matters to a publisher. -/
theorem works_note {e : NetworkEvent} (works : Works failed sent l n l' n')
    (other : e.publication? = none) : Works failed sent l n l' (n'.note e) :=
  { works with
    tracks := ⟨works.tracks.nodup, works.tracks.le⟩
    published := by
      rw [← works.published, Network.published, Network.note, List.filterMap_append]
      simp [other, Network.published] }

theorem publisher_reset (l : Link η) (n : Network) : (l.reset n).1.publisher = none := by
  unfold reset
  split <;> simp_all

theorem sheds_reset (l : Link η) (n : Network) : n.Sheds (l.reset n).2 := by
  unfold reset
  split
  · exact Network.sheds_refl n
  · exact Network.sheds_close n _

/-- Dropping the publisher closes its connection and no other. -/
theorem works_reset (tracks : n.Tracks) : Works 0 [] l n (l.reset n).1 (l.reset n).2 := by
  unfold reset
  cases hp : l.publisher with
  | none => exact works_refl tracks
  | some p =>
    have sheds := Network.sheds_close n p.connection
    exact {
      link := rfl
      tracks := sheds.tracks tracks
      opened := Nat.le_of_eq sheds.opened.symm
      fresh := fun c none => by simp [connection?] at none
      elsewhere := by
        refine (elsewhere_of_none rfl).trans ((Network.live_close n p.connection).trans ?_)
        exact List.filter_congr fun c _ => Bool.eq_iff_iff.2 (by
          simp [connection?, hp, eq_comm (a := p.connection)])
      hindrances := sheds.hindrances.symm
      published := sheds.published.trans (List.append_nil _).symm
      waiting := sheds.waiting.trans (List.append_nil _).symm }

/-! ## Connecting -/

/-- How the search for a connection to publish over ends. -/
inductive Connects (l : Link η) (n : Network) :
    Except String Nat × Link η × Network → Prop where
  | connected {c : Nat} {l' : Link η} {n' : Network} (works : Works 0 [] l n l' n')
      (publisher : l'.publisher = some ⟨c, true⟩) : Connects l n (.ok c, l', n')
  | failed {cause : String} {l' : Link η} {n' : Network} (works : Works 1 [] l n l' n') :
      Connects l n (.error cause, l', n')

/-- A fresh connection is the link's own, so elsewhere none was opened. -/
theorem works_fresh (met : Network.Meets .connect false n n') (tracks : n.Tracks)
    (none : l.publisher = none) (channelOpen : Bool) :
    Works 0 [] l n { l with publisher := some ⟨n'.opened + 1, channelOpen⟩ }
      (({ n' with opened := n'.opened + 1, live := n'.live ++ [n'.opened + 1] } : Network).note
        (.connected (n'.opened + 1) l.address)) := by
  refine works_note ?_ rfl
  have new := (met.tracks tracks).succ_notMem
  exact {
    link := rfl
    tracks := (met.tracks tracks).opening
    opened := by rw [met.opened]; exact Nat.le_succ _
    fresh := fun c own => by
      simp only [connection?, Option.map_some, Option.some_inj, met.opened] at own ⊢
      omega
    elsewhere := by
      rw [elsewhere_of_none none, elsewhere, List.filter_append, List.filter_eq_self.2,
        List.filter_eq_nil_iff.2, List.append_nil, met.live]
      · simp [connection?]
      · intro c hc
        simpa [connection?] using fun same : n'.opened + 1 = c => new (same ▸ hc)
    hindrances := met.hindrances_eq (Or.inl rfl)
    published := met.published.trans (by rw [List.map_nil, List.append_nil])
    waiting := met.waiting.trans (List.append_nil _).symm }

theorem connects_openPublisher (tracks : n.Tracks) (none : l.publisher = none) :
    Connects l n (l.openPublisher n) := by
  unfold openPublisher Network.connect
  obtain ⟨fails, n₁, met, connect⟩ := n.exists_meets .connect
  rw [met]
  cases fails with
  | true => exact .failed (works_of_harmful connect tracks (by simp))
  | false =>
    have opens := works_fresh connect tracks none
    dsimp only
    generalize Network.note _ _ = n₂ at opens
    unfold Network.openChannel
    obtain ⟨fails, n₃, met, channel⟩ := n₂.exists_meets .channel
    rw [met]
    cases fails with
    | true =>
      exact .failed ((opens false).trans (works_of_harmful channel (opens false).tracks (by simp)))
    | false =>
      exact .connected ((opens true).trans
        (works_of_harmless channel (opens true).tracks (Or.inl rfl))) rfl

/-- A link goes on with its publisher, or replaces one without a channel. -/
theorem connects_publisherConnection (tracks : n.Tracks) :
    Connects l n (l.publisherConnection n) := by
  unfold publisherConnection
  split
  · next c publisher => exact .connected (works_refl tracks) publisher
  · have drops := works_reset (l := l) tracks
    obtain ⟨⟨l₁, n₁⟩, hreset⟩ : ∃ r, l.reset n = r := ⟨_, rfl⟩
    have none : l₁.publisher = .none := by
      have := publisher_reset l n
      rwa [hreset] at this
    rw [hreset] at drops ⊢
    dsimp only at drops ⊢
    have opens := connects_openPublisher drops.tracks none
    generalize l₁.openPublisher n₁ = r at opens
    cases opens with
    | connected works publisher => exact .connected (drops.trans works) publisher
    | failed works => exact .failed (drops.trans works)

/-! ## Attempts -/

/-- How an attempt to publish ends: the message was sent and nothing failed, or one thing failed,
nothing was sent, and the link dropped its connection. -/
inductive Attempted (m : Message) (l : Link η) (n : Network) :
    Except String Unit × Link η × Network → Prop where
  | sent {l' : Link η} {n' : Network} (works : Works 0 [m] l n l' n') :
      Attempted m l n (.ok (), l', n')
  | failed {cause : String} {l' : Link η} {n' : Network} (works : Works 1 [] l n l' n')
      (dropped : l'.publisher = none) : Attempted m l n (.error cause, l', n')

theorem attempted (tracks : n.Tracks) : Attempted m l n (l.attempt m n) := by
  unfold attempt
  have connects := connects_publisherConnection (l := l) tracks
  generalize l.publisherConnection n = r at connects
  cases connects with
  | failed works =>
    exact .failed (works.trans (works_reset works.tracks)) (publisher_reset _ _)
  | @connected c l₁ n₁ works =>
    dsimp only
    unfold Network.publish
    obtain ⟨fails, n₂, met, publish⟩ := n₁.exists_meets .publish
    rw [met]
    cases fails with
    | true =>
      have fails := works.trans (works_of_harmful publish works.tracks (by simp))
      exact .failed (fails.trans (works_reset fails.tracks)) (publisher_reset _ _)
    | false =>
      have succeeds := works.trans (works_of_harmless publish works.tracks (Or.inl rfl))
      exact .sent { succeeds with
        tracks := ⟨succeeds.tracks.nodup, succeeds.tracks.le⟩
        published := by
          rw [Network.published, Network.note, List.filterMap_append]
          exact congrArg (· ++ [Publication.persistent m])
            (succeeds.published.trans (List.append_nil _))
        waiting := congrArg (· ++ [m]) (succeeds.waiting.trans (List.append_nil _)) }

/-- Attempts to publish a message one after another, with their outcomes. -/
inductive Tries (m : Message) :
    List (Except String Unit) → Link η → Network → Link η → Network → Prop where
  | nil {l : Link η} {n : Network} : Tries m [] l n l n
  | next {r : Except String Unit} {rs : List (Except String Unit)} {l l' l'' : Link η}
      {n n' n'' : Network} (first : l.attempt m n = (r, l', n')) (rest : Tries m rs l' n' l'' n'') :
      Tries m (r :: rs) l n l'' n''

/-- The attempts that fail are those that meet a failure, and each of the others sends the
message once. -/
theorem Tries.works {rs : List (Except String Unit)} (tries : Tries m rs l n l' n')
    (tracks : n.Tracks) :
    Works (rs.countP (!·.isOk)) (List.replicate (rs.countP (·.isOk)) m) l n l' n' := by
  induction tries with
  | nil => exact works_refl tracks
  | @next r rs l l₁ l₂ n n₁ n₂ first _ ih =>
    have this := attempted (m := m) (l := l) tracks
    rw [first] at this
    cases this with
    | sent works =>
      have all := works.trans (ih works.tracks)
      rw [List.countP_cons_of_neg (by simp [Except.isOk, Except.toBool]),
        List.countP_cons_of_pos (by simp [Except.isOk, Except.toBool])]
      rwa [Nat.zero_add, List.singleton_append, ← List.replicate_succ] at all
    | failed works =>
      have all := works.trans (ih works.tracks)
      rw [List.countP_cons_of_pos (by simp [Except.isOk, Except.toBool]),
        List.countP_cons_of_neg (by simp [Except.isOk, Except.toBool])]
      rwa [Nat.add_comm, List.nil_append] at all

/-- Attempts that end with a failure leave the link without a connection. -/
theorem Tries.dropped {rs : List (Except String Unit)} {cause : String}
    (tries : Tries m (rs ++ [.error cause]) l n l' n') (tracks : n.Tracks) :
    l'.publisher = none := by
  induction rs generalizing l n with
  | nil =>
    cases tries with
    | next first rest =>
      cases rest
      have this := attempted (m := m) (l := l) tracks
      rw [first] at this
      cases this with
      | failed _ dropped => exact dropped
  | cons r rs ih =>
    cases tries with
    | next first rest =>
      have this := attempted (m := m) (l := l) tracks
      rw [first] at this
      cases this with
      | sent works => exact ih rest works.tracks
      | failed works => exact ih rest works.tracks

/-- A publish of an open link is an attempt that succeeds, or one that fails and one that
succeeds, or two that fail. -/
theorem exists_tries (m : Message) (l : Link η) (n : Network) (opened : l.closed = false) :
    ∃ rs l' n', Tries m rs l n l' n' ∧
      (l.publish m n = (.ok (), l', n') ∧
          (rs = [.ok ()] ∨ ∃ cause, rs = [.error cause, .ok ()]) ∨
        ∃ first cause, l.publish m n = (.error (.failed .publish m.queue cause), l', n') ∧
          rs = [.error first, .error cause]) := by
  unfold publish
  rw [if_neg (by rw [opened]; exact Bool.false_ne_true)]
  obtain ⟨⟨r, l₁, n₁⟩, first⟩ : ∃ r, l.attempt m n = r := ⟨_, rfl⟩
  rw [first]
  rcases r with failure | ⟨⟩
  · obtain ⟨⟨r, l₂, n₂⟩, second⟩ : ∃ r, l₁.attempt m n₁ = r := ⟨_, rfl⟩
    dsimp only
    rw [second]
    refine ⟨_, l₂, n₂, .next first (.next second .nil), ?_⟩
    rcases r with cause | ⟨⟩
    · exact Or.inr ⟨failure, cause, rfl, rfl⟩
    · exact Or.inl ⟨rfl, Or.inr ⟨failure, rfl⟩⟩
  · exact ⟨_, l₁, n₁, .next first .nil, Or.inl ⟨rfl, Or.inl rfl⟩⟩

/-! ## Errands -/

/-- What a link needs its publisher for. -/
inductive Errand where
  | publish (m : Message)
  | declare (queue : String)
  | declareAll (queues : List String)

/-- Runs an errand. -/
def Errand.perform (errand : Errand) (l : Link η) (n : Network) :
    Except Refusal Unit × Link η × Network :=
  match errand with
  | .publish m => l.publish m n
  | .declare queue => l.declare queue n
  | .declareAll queues => Link.declareAll queues l n

/-- How an errand ends: either way it is work of the publisher, and one that an open link refuses
leaves the link without a connection. -/
inductive Ends (l : Link η) (n : Network) : Except Refusal Unit × Link η × Network → Prop where
  | returned {failed : Nat} {sent : List Message} {l' : Link η} {n' : Network}
      (works : Works failed sent l n l' n') : Ends l n (.ok (), l', n')
  | refused {refusal : Refusal} {failed : Nat} {sent : List Message} {l' : Link η} {n' : Network}
      (works : Works failed sent l n l' n')
      (dropped : l.closed = false → l'.publisher = none) : Ends l n (.error refusal, l', n')

theorem Ends.works {r : Except Refusal Unit × Link η × Network} (ends : Ends l n r) :
    ∃ failed sent, Works failed sent l n r.2.1 r.2.2 := by
  cases ends with
  | returned works => exact ⟨_, _, works⟩
  | refused works => exact ⟨_, _, works⟩

theorem ends_publish (m : Message) (tracks : n.Tracks) : Ends l n (l.publish m n) := by
  cases closed : l.closed with
  | true =>
    unfold publish
    rw [if_pos closed]
    exact .refused (works_refl tracks) fun opened => by simp [closed] at opened
  | false =>
    obtain ⟨rs, l', n', tries, ⟨h, -⟩ | ⟨first, cause, h, rfl⟩⟩ := exists_tries m l n closed
    · rw [h]
      exact .returned (tries.works tracks)
    · rw [h]
      have last : Tries m ([.error first] ++ [.error cause]) l n l' n' := tries
      exact .refused (tries.works tracks) fun _ => last.dropped tracks

theorem ends_declare (queue : String) (tracks : n.Tracks) : Ends l n (l.declare queue n) := by
  unfold declare
  have connects := connects_publisherConnection (l := l) tracks
  generalize l.publisherConnection n = r at connects
  cases connects with
  | failed works =>
    exact .refused (works.trans (works_reset works.tracks)) fun _ => publisher_reset _ _
  | @connected c l₁ n₁ works =>
    dsimp only
    unfold Network.declare
    obtain ⟨fails, n₂, met, declare⟩ := n₁.exists_meets .declare
    rw [met]
    have asked := works.trans (works_of_harmless declare works.tracks (by simp))
    cases fails with
    | true => exact .refused (asked.trans (works_reset asked.tracks)) fun _ => publisher_reset _ _
    | false => exact .returned (works_note asked rfl)

theorem ends_declareAll (queues : List String) (tracks : n.Tracks) :
    Ends l n (declareAll queues l n) := by
  induction queues generalizing l n with
  | nil => exact .returned (works_refl tracks)
  | cons queue rest ih =>
    unfold declareAll
    have first := ends_declare queue (l := l) tracks
    generalize l.declare queue n = r at first
    cases first with
    | refused works dropped => exact .refused works dropped
    | @returned failed sent l₁ n₁ works =>
      have others := ih (l := l₁) works.tracks
      dsimp only
      generalize declareAll rest l₁ n₁ = r at others
      cases others with
      | returned more => exact .returned (works.trans more)
      | refused more dropped =>
        exact .refused (works.trans more) fun opened => dropped (by rw [works.link]; exact opened)

theorem ends_perform (errand : Errand) (tracks : n.Tracks) : Ends l n (errand.perform l n) := by
  cases errand with
  | publish m => exact ends_publish m tracks
  | declare queue => exact ends_declare queue tracks
  | declareAll queues => exact ends_declareAll queues tracks

end Link
end Stepwise
