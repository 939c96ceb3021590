import Stepwise.Proofs.Transport.Publisher

/-!
# Closing a link

A process publishes, declares queues, subscribes and closes its link, in any order.  A `Scene`
keeps count of the connections that its publisher opened, and once the link is closed none of them
is open (`Scene.Sound`).

A closed link refuses to publish and to subscribe, but it declares a queue like an open one.  So it
stays closed for good exactly as long as the server refuses the connection to each declaration that
follows (`closed_for_good_iff`).
-/

namespace Stepwise.Link

variable {η : Type} {l : Link η} {n n' : Network}

/-! ## Scenes -/

/-- What a process asks of its link. -/
inductive Call (η : Type) where
  | errand (errand : Errand)
  | subscribe (queue : String) (handler : η)
  | close

def Call.perform (call : Call η) (l : Link η) (n : Network) :
    Except Refusal Unit × Link η × Network :=
  match call with
  | .errand e => e.perform l n
  | .subscribe queue handler => l.subscribe queue handler n
  | .close => (.ok (), l.close none n)

/-- A link and its server, and the connections that the publisher of the link has opened. -/
structure Scene (η : Type) where
  link : Link η
  network : Network
  own : List Nat

namespace Scene

variable {s : Scene η}

/-- What is opened for an errand is opened by the publisher. -/
def next (s : Scene η) (call : Call η) : Scene η :=
  let r := call.perform s.link s.network
  let opened := List.range' (s.network.opened + 1) (r.2.2.opened - s.network.opened)
  ⟨r.2.1, r.2.2, match call with
    | .errand _ => s.own ++ opened
    | _ => s.own⟩

/-- A scene after calls, the first one first. -/
def after (s : Scene η) (calls : List (Call η)) : Scene η := calls.foldl next s

/-- A link that has not opened any connection, and a server whose failures are to come. -/
def idle (address : Address) (prefetch : Int) (due : Hazard → List Bool) : Scene η :=
  ⟨.idle address prefetch, { Network.fresh with due }, []⟩

/-- No connection of the publisher is open. -/
def Quiet (s : Scene η) : Prop := ∀ c ∈ s.own, c ∉ s.network.live

/-- The publisher has one open connection at most, which is the one it publishes over. -/
structure Sound (s : Scene η) : Prop where
  tracks : s.network.Tracks
  stored : ∀ c ∈ s.own, c ∈ s.network.live → s.link.connection? = some c
  known : ∀ c ∈ s.own, c ≤ s.network.opened

theorem sound_idle (address : Address) (prefetch : Int) (due : Hazard → List Bool) :
    (idle address prefetch due : Scene η).Sound where
  tracks := ⟨List.nodup_nil, by simp [idle, Network.fresh]⟩
  stored := by simp [idle]
  known := by simp [idle]

theorem Sound.quiet (sound : s.Sound) (none : s.link.publisher = .none) : s.Quiet := by
  intro c own open_
  simpa [connection?, none] using sound.stored c own open_

end Scene

/-! ## Closing -/

/-- Closing consumers closes connections and leaves the publisher alone. -/
theorem sheds_stopWhere (condition : LinkConsumer η → Bool) (busy : Option Nat) (l : Link η)
    (n : Network) : n.Sheds (l.stopWhere condition busy n).2 := by
  unfold stopWhere
  dsimp only
  generalize l.consumers.filter condition = stopping
  induction stopping generalizing n with
  | nil => exact Network.sheds_refl n
  | cons c stopping ih =>
    refine Network.Sheds.trans ?_ (ih _)
    dsimp only
    split
    · exact Network.sheds_refl n
    · exact Network.sheds_close n c.connection

/-- A closed link has no publisher, and the connection of the one that it had is closed. -/
theorem close_spec (busy : Option Nat) (l : Link η) (n : Network) :
    (l.close busy n).1.closed = true ∧ (l.close busy n).1.publisher = none ∧
      n.Sheds (l.close busy n).2 ∧ ∀ c, l.connection? = some c → c ∉ (l.close busy n).2.live := by
  unfold close
  dsimp only
  obtain ⟨l₁, hl₁⟩ : ∃ l₁, l₁ =
      (({ l with closed := true } : Link η).stopWhere (fun c => !c.stopped) busy n).1 := ⟨_, rfl⟩
  have sheds := sheds_stopWhere (fun c => !c.stopped) busy { l with closed := true } n
  have closed : l₁.closed = true := by rw [hl₁]; rfl
  have publisher : l₁.publisher = l.publisher := by rw [hl₁]; rfl
  rw [← hl₁]
  refine ⟨?_, publisher_reset _ _, ?_, ?_⟩
  all_goals
    unfold reset
    rw [publisher]
    cases hp : l.publisher
  · exact closed
  · exact closed
  · exact sheds
  · exact sheds.trans (Network.sheds_close _ _)
  · simp [connection?, hp]
  · next p =>
    intro c own
    have same : p.connection = c := by simpa [connection?, hp] using own
    simp [Network.live_close, same]

/-! ## Subscribing -/

/-- Whatever a server gets done, the connections that it had not opened before are new ones. -/
structure Gains (n n' : Network) : Prop where
  tracks : n'.Tracks
  opened : n.opened ≤ n'.opened
  live : ∀ c ∈ n'.live, c ∈ n.live ∨ n.opened < c

theorem gains_refl (tracks : n.Tracks) : Gains n n := ⟨tracks, Nat.le_refl _, fun _ hc => Or.inl hc⟩

theorem Gains.trans {n'' : Network} (first : Gains n n') (second : Gains n' n'') : Gains n n'' where
  tracks := second.tracks
  opened := Nat.le_trans first.opened second.opened
  live := by
    intro c hc
    rcases second.live c hc with before | after
    · exact first.live c before
    · exact Or.inr (Nat.lt_of_le_of_lt first.opened after)

theorem gains_of_meets {h : Hazard} {fails : Bool} (met : Network.Meets h fails n n')
    (tracks : n.Tracks) : Gains n n' :=
  ⟨met.tracks tracks, Nat.le_of_eq met.opened.symm, fun _ hc => Or.inl (met.live ▸ hc)⟩

theorem Gains.note (gains : Gains n n') (e : NetworkEvent) : Gains n (n'.note e) :=
  ⟨⟨gains.tracks.nodup, gains.tracks.le⟩, gains.opened, gains.live⟩

theorem gains_connect (address : Address) (tracks : n.Tracks) :
    Gains n (n.connect address).2 := by
  unfold Network.connect
  obtain ⟨fails, n₁, met, connect⟩ := n.exists_meets .connect
  rw [met]
  cases fails with
  | true => exact gains_of_meets connect tracks
  | false =>
    have opening := (connect.tracks tracks).opening
    have later : n.opened ≤ n₁.opened + 1 := Nat.le_succ_of_le (Nat.le_of_eq connect.opened.symm)
    refine Gains.note ⟨opening, later, fun c hc => ?_⟩ _
    rcases List.mem_append.1 hc with before | after
    · exact Or.inl (connect.live ▸ before)
    · rw [List.mem_singleton.1 after, connect.opened]
      exact Or.inr (Nat.lt_succ_self _)

theorem gains_openChannel (tracks : n.Tracks) : Gains n n.openChannel.2 := by
  unfold Network.openChannel
  obtain ⟨fails, n₁, met, channel⟩ := n.exists_meets .channel
  rw [met]
  cases fails <;> exact gains_of_meets channel tracks

theorem gains_declare (c : Nat) (queue : String) (tracks : n.Tracks) :
    Gains n (n.declare c queue).2 := by
  unfold Network.declare
  obtain ⟨fails, n₁, met, declare⟩ := n.exists_meets .declare
  rw [met]
  cases fails with
  | true => exact gains_of_meets declare tracks
  | false => exact (gains_of_meets declare tracks).note _

theorem gains_consume (queue : String) (prefetch : Int) (address : Address) (tracks : n.Tracks) :
    Gains n (consume queue prefetch address n).2 := by
  unfold consume
  have connected := gains_connect address tracks
  generalize n.connect address = r at connected
  rcases r with ⟨cause | c, n₁⟩
  · exact connected
  · have ready := connected.trans (gains_openChannel connected.tracks)
    dsimp only at ready ⊢
    generalize n₁.openChannel = r at ready
    rcases r with ⟨cause | ⟨⟩, n₂⟩
    · exact ready
    · have declared := ready.trans (gains_declare c queue ready.tracks)
      dsimp only at declared ⊢
      generalize n₂.declare c queue = r at declared
      rcases r with ⟨cause | ⟨⟩, n₃⟩
      · exact declared
      · exact (declared.note _).note _

/-- A subscription leaves the publisher alone. -/
theorem subscribe_spec (queue : String) (handler : η) (tracks : n.Tracks) :
    (l.subscribe queue handler n).2.1.publisher = l.publisher ∧
      Gains n (l.subscribe queue handler n).2.2 := by
  unfold subscribe
  split
  · exact ⟨rfl, gains_refl tracks⟩
  · have gains := gains_consume queue l.prefetch l.address tracks
    generalize consume queue l.prefetch l.address n = r at gains
    rcases r with ⟨cause | c, n'⟩
    · exact ⟨rfl, gains⟩
    · exact ⟨rfl, gains⟩

/-! ## Any call -/

namespace Scene

variable {s : Scene η}

/-- An errand leaves no connection behind but the one that the link publishes over then. -/
theorem sound_errand (sound : s.Sound) (errand : Errand) : (s.next (.errand errand)).Sound := by
  obtain ⟨failed, sent, works⟩ := (ends_perform errand (l := s.link) sound.tracks).works
  refine ⟨works.tracks, fun c own open_ => ?_, fun c own => ?_⟩
  · by_contra other
    -- then it was open elsewhere before, though it is the publisher's or did not exist
    have elsewhere : c ∈ s.link.elsewhere s.network := by
      rw [← works.elsewhere]
      exact List.mem_filter.2 ⟨open_, decide_eq_true other⟩
    obtain ⟨before, foreign⟩ := List.mem_filter.1 elsewhere
    rcases List.mem_append.1 own with old | new
    · exact of_decide_eq_true foreign (sound.stored c old before)
    · have := sound.tracks.le c before
      have := List.mem_range'_1.1 new
      omega
  · rcases List.mem_append.1 own with old | new
    · exact Nat.le_trans (sound.known c old) works.opened
    · have := List.mem_range'_1.1 new
      have := works.opened
      simp only [next, Call.perform] at *
      omega

theorem sound_next (sound : s.Sound) (call : Call η) : (s.next call).Sound := by
  cases call with
  | errand e => exact sound_errand sound e
  | subscribe queue handler =>
    obtain ⟨publisher, gains⟩ := subscribe_spec (l := s.link) queue handler sound.tracks
    refine ⟨gains.tracks, fun c own open_ => ?_, fun c own =>
      Nat.le_trans (sound.known c own) gains.opened⟩
    have before : c ∈ s.network.live :=
      (gains.live c open_).resolve_right (Nat.not_lt_of_le (sound.known c own))
    exact (congrArg _ publisher).trans (sound.stored c own before)
  | close =>
    obtain ⟨-, none, sheds, shut⟩ := close_spec Option.none s.link s.network
    refine ⟨sheds.tracks sound.tracks, fun c own open_ => ?_, fun c own => ?_⟩
    · have stored := sound.stored c own (sheds.live.subset open_)
      exact absurd open_ (shut c stored)
    · exact Nat.le_trans (sound.known c own) (Nat.le_of_eq sheds.opened.symm)

theorem sound_after (sound : s.Sound) (calls : List (Call η)) : (s.after calls).Sound := by
  induction calls generalizing s with
  | nil => exact sound
  | cons call calls ih => exact ih (sound_next sound call)

end Scene

/-! ## Closed links -/

/-- What a closed link has to refuse. -/
def Call.Asks : Call η → Prop
  | .errand (.declareAll []) | .close => False
  | _ => True

/-- A call that declares a queue at least. -/
def Call.declares : Call η → Bool
  | .errand (.declare _) | .errand (.declareAll (_ :: _)) => true
  | _ => false

namespace Scene

variable {s : Scene η} {call : Call η}

/-- What is promised of a call once the link is closed. -/
structure Barred (s : Scene η) (call : Call η) : Prop where
  refuses : call.Asks → ∃ refusal, (call.perform s.link s.network).1 = .error refusal
  opened : (s.next call).network.opened = s.network.opened
  quiet : (s.next call).Quiet

/-- All of the calls that follow are as promised. -/
def AllBarred : Scene η → List (Call η) → Prop
  | _, [] => True
  | s, call :: calls => s.Barred call ∧ (s.next call).AllBarred calls

/-- A closed link without a publisher. -/
structure Shut (s : Scene η) : Prop where
  sound : s.Sound
  closed : s.link.closed = true
  publisher : s.link.publisher = none

end Scene

/-- A link without a publisher stays without one when the server refuses the connection. -/
theorem declare_of_refused (queue : String) {rest : List Bool} (none : l.publisher = none)
    (refused : n.due .connect = true :: rest) :
    ∃ refusal n', l.declare queue n = (.error refusal, l, n') ∧ n'.opened = n.opened ∧
      n'.due .connect = rest := by
  simp [declare, publisherConnection, none, reset, openPublisher, Network.connect, Network.meets,
    refused]

/-- Otherwise it gets a connection. -/
theorem opened_lt_connect (address : Address) (taken : ∀ rest, n.due .connect ≠ true :: rest) :
    n.opened < (n.connect address).2.opened := by
  unfold Network.connect
  obtain ⟨fails, n₁, met, connect⟩ := n.exists_meets .connect
  rw [met]
  cases fails with
  | true =>
    obtain ⟨rest, due⟩ := connect.expected rfl
    exact absurd due (taken rest)
  | false => exact Nat.lt_succ_of_le (Nat.le_of_eq connect.opened.symm)

/-- A channel and a queue need no connection of their own. -/
theorem opened_openChannel (n : Network) : n.openChannel.2.opened = n.opened := by
  unfold Network.openChannel
  obtain ⟨fails, n₁, met, channel⟩ := n.exists_meets .channel
  rw [met]
  cases fails <;> exact channel.opened

theorem opened_declare (c : Nat) (queue : String) (n : Network) :
    (n.declare c queue).2.opened = n.opened := by
  unfold Network.declare
  obtain ⟨fails, n₁, met, declare⟩ := n.exists_meets .declare
  rw [met]
  cases fails <;> exact declare.opened

theorem opened_lt_openPublisher (taken : ∀ rest, n.due .connect ≠ true :: rest) :
    n.opened < (l.openPublisher n).2.2.opened := by
  unfold openPublisher
  have more := opened_lt_connect l.address taken
  generalize n.connect l.address = r at more
  rcases r with ⟨cause | c, n₁⟩
  · exact more
  · have ready := Nat.lt_of_lt_of_eq more (opened_openChannel n₁).symm
    dsimp only
    generalize n₁.openChannel = r at ready
    rcases r with ⟨cause | ⟨⟩, n₂⟩ <;> exact ready

theorem opened_lt_declare (queue : String) (none : l.publisher = none)
    (taken : ∀ rest, n.due .connect ≠ true :: rest) :
    n.opened < (l.declare queue n).2.2.opened := by
  have opens := opened_lt_openPublisher (l := l) taken
  have fresh : l.publisherConnection n = l.openPublisher n := by
    simp [publisherConnection, none, reset]
  unfold declare
  rw [fresh]
  generalize l.openPublisher n = r at opens
  rcases r with ⟨cause | c, l₁, n₁⟩
  · exact Nat.lt_of_lt_of_eq opens (sheds_reset l₁ n₁).opened.symm
  · have declared := Nat.lt_of_lt_of_eq opens (opened_declare c queue n₁).symm
    dsimp only
    generalize n₁.declare c queue = r at declared
    rcases r with ⟨cause | ⟨⟩, n₂⟩
    · exact Nat.lt_of_lt_of_eq declared (sheds_reset l₁ n₂).opened.symm
    · exact declared

namespace Scene

variable {s : Scene η} {call : Call η}

/-- A call after which the link is still closed and without a publisher, and no connection was
opened, is as promised if it refuses what it should. -/
theorem Shut.barred (shut : s.Shut)
    (refuses : call.Asks → ∃ refusal, (call.perform s.link s.network).1 = .error refusal)
    (closed : (s.next call).link.closed = true) (publisher : (s.next call).link.publisher = none)
    (opened : (s.next call).network.opened = s.network.opened) :
    s.Barred call ∧ (s.next call).Shut := by
  have sound := sound_next shut.sound call
  exact ⟨⟨refuses, opened, sound.quiet publisher⟩, sound, closed, publisher⟩

/-- A call that declares nothing does not disturb a closed link. -/
theorem barred_of_not_declares (shut : s.Shut) (other : call.declares = false) :
    s.Barred call ∧ (s.next call).Shut ∧
      (s.next call).network.due .connect = s.network.due .connect := by
  rw [← and_assoc]
  rcases call with (m | queue | ⟨⟩ | ⟨queue, queues⟩) | ⟨queue, handler⟩ | _
  · have refuses : s.link.publish m s.network =
        (.error (.closed "transport" .publish m.queue), s.link, s.network) :=
      if_pos shut.closed
    refine ⟨shut.barred (fun _ => ⟨_, congrArg Prod.fst refuses⟩) ?_ ?_ ?_, ?_⟩ <;>
      simp [next, Call.perform, Errand.perform, refuses, shut.closed, shut.publisher]
  · cases other
  · refine ⟨shut.barred False.elim ?_ ?_ ?_, ?_⟩ <;>
      simp [next, Call.perform, Errand.perform, declareAll, shut.closed, shut.publisher]
  · cases other
  · have refuses : s.link.subscribe queue handler s.network =
        (.error (.closed "transport" .subscribe queue), s.link, s.network) :=
      if_pos shut.closed
    refine ⟨shut.barred (fun _ => ⟨_, congrArg Prod.fst refuses⟩) ?_ ?_ ?_, ?_⟩ <;>
      simp [next, Call.perform, refuses, shut.closed, shut.publisher]
  · obtain ⟨closed, none, sheds, -⟩ := close_spec Option.none s.link s.network
    exact ⟨shut.barred False.elim closed none sheds.opened, sheds.due .connect (by decide)⟩

/-- A call that declares something does not either if the server refuses the connection. -/
theorem barred_of_refused (shut : s.Shut) (declares : call.declares = true) {rest : List Bool}
    (refused : s.network.due .connect = true :: rest) :
    s.Barred call ∧ (s.next call).Shut ∧ (s.next call).network.due .connect = rest := by
  obtain ⟨refusal, n', h, opened, due⟩ : ∃ refusal n',
      call.perform s.link s.network = (.error refusal, s.link, n') ∧
        n'.opened = s.network.opened ∧ n'.due .connect = rest := by
    rcases call with (m | queue | ⟨⟩ | ⟨queue, queues⟩) | ⟨queue, handler⟩ | _
    · cases declares
    · exact declare_of_refused queue shut.publisher refused
    · cases declares
    · obtain ⟨refusal, n', h, rest⟩ := declare_of_refused queue shut.publisher refused
      exact ⟨refusal, n', by simp [Call.perform, Errand.perform, declareAll, h], rest⟩
    · cases declares
    · cases declares
  rw [← and_assoc]
  refine ⟨shut.barred (fun _ => ⟨refusal, congrArg Prod.fst h⟩) ?_ ?_ ?_, ?_⟩ <;>
    simp [next, h, shut.closed, shut.publisher, opened, due]

/-- It opens a connection if the server does not refuse it. -/
theorem not_barred_of_taken (shut : s.Shut) (declares : call.declares = true)
    (taken : ∀ rest, s.network.due .connect ≠ true :: rest) : ¬ s.Barred call := by
  intro barred
  refine Nat.ne_of_gt ?_ barred.opened
  rcases call with (m | queue | ⟨⟩ | ⟨queue, queues⟩) | ⟨queue, handler⟩ | _
  · cases declares
  · exact opened_lt_declare queue shut.publisher taken
  · cases declares
  · -- the other queues are declared over what is there by then, or over more connections
    have first := opened_lt_declare queue shut.publisher taken
    have ends := ends_declare queue (l := s.link) shut.sound.tracks
    unfold next Call.perform Errand.perform declareAll
    dsimp only
    generalize s.link.declare queue s.network = r at first ends
    cases ends with
    | refused => exact first
    | @returned failed sent l₁ n₁ works =>
      obtain ⟨_, _, more⟩ := (ends_declareAll queues (l := l₁) works.tracks).works
      exact Nat.lt_of_lt_of_le first more.opened
  · cases declares
  · cases declares

/-- The calls on a closed link are as promised exactly as long as the server refuses the connection
to each one that declares something. -/
theorem allBarred_iff (shut : s.Shut) (calls : List (Call η)) :
    s.AllBarred calls ↔
      List.replicate (calls.countP Call.declares) true <+: s.network.due .connect := by
  induction calls generalizing s with
  | nil => simp [AllBarred]
  | cons call calls ih =>
    rw [AllBarred]
    cases declares : call.declares with
    | false =>
      obtain ⟨barred, next, due⟩ := barred_of_not_declares shut declares
      rw [List.countP_cons_of_neg (by simp [declares]), ← due, ← ih next, and_iff_right barred]
    | true =>
      rw [List.countP_cons_of_pos declares, List.replicate_succ]
      by_cases refused : ∃ rest, s.network.due .connect = true :: rest
      · obtain ⟨rest, refused⟩ := refused
        obtain ⟨barred, next, due⟩ := barred_of_refused shut declares refused
        rw [refused, List.cons_prefix_cons, ← due, ← ih next, and_iff_right barred,
          and_iff_right rfl]
      · have taken : ∀ rest, s.network.due .connect ≠ true :: rest :=
          fun rest h => refused ⟨rest, h⟩
        refine iff_of_false (fun h => not_barred_of_taken shut declares taken h.1) ?_
        rintro ⟨rest, h⟩
        exact taken _ h.symm

end Scene

/-- When a link has been closed, no connection of its publisher is open.  From then on it refuses
everything and opens no connection exactly if the server refuses the connection to each declaration
that follows, as it does if none follows. -/
theorem closed_for_good_iff (address : Address) (prefetch : Int) (due : Hazard → List Bool)
    (before after : List (Call η)) :
    let closed : Scene η := (Scene.idle address prefetch due).after (before ++ [.close])
    closed.Quiet ∧ (closed.AllBarred after ↔
      List.replicate (after.countP Call.declares) true <+: closed.network.due .connect) := by
  intro closed
  obtain ⟨s, hs⟩ : ∃ s, s = (Scene.idle address prefetch due : Scene η).after before := ⟨_, rfl⟩
  have ended : closed = s.next .close := by
    rw [hs]
    exact List.foldl_append
  have sound : s.Sound := hs ▸ Scene.sound_after (Scene.sound_idle address prefetch due) before
  obtain ⟨shut, none, -⟩ := close_spec Option.none s.link s.network
  have all : closed.Shut := by
    rw [ended]
    exact ⟨Scene.sound_next sound .close, shut, none⟩
  exact ⟨all.sound.quiet all.publisher, Scene.allBarred_iff all after⟩

/-- A closed link opens a connection to declare a queue, which nobody closes. -/
theorem closed_link_declares :
    let closed : Scene Nat :=
      (Scene.idle ⟨"localhost", 5672, "/"⟩ 1 fun _ => []).after [.close]
    let call : Call Nat := .errand (.declare "z")
    closed.link.closed = true ∧ (call.perform closed.link closed.network).1 = .ok () ∧
      closed.network.opened = 0 ∧ (closed.next call).network.opened = 1 ∧
      (closed.next call).own = [1] ∧ (closed.next call).network.live = [1] := by
  decide +kernel

end Stepwise.Link
