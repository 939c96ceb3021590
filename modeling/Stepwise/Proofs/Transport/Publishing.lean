import Stepwise.Proofs.Transport.Publisher

/-!
# Publishing over message servers

Several processes publish and declare queues, each over a link of its own, and new processes
connect.  Whatever fails on the way, and whatever the server takes from them between their calls,
every open connection is the one that one link publishes over (`Site.Held`).  So a link has one open
connection at most, a call that is refused leaves none behind, and a publish sends its message once
or not at all (`attempts_of_turns`).
-/

namespace Stepwise

namespace Link

variable {η : Type} {l : Link η} {n : Network}

/-- A publish with the outcomes of its attempts. -/
structure Publishes (m : Message) (rs : List (Except String Unit)) (r : Except Refusal Unit)
    (l : Link η) (n : Network) (l' : Link η) (n' : Network) : Prop where
  tries : Tries m rs l n l' n'
  few : rs.length ≤ 2
  returns : r = .ok () ↔ .ok () ∈ rs
  refuses : ∀ refusal, r = .error refusal ↔ ∃ first cause,
    rs = [.error first, .error cause] ∧ refusal = .failed .publish m.queue cause
  /-- Each attempt that fails meets one failure. -/
  hindrances : n.hindrances = n'.hindrances + rs.countP (!·.isOk)
  published : n'.published = n.published ++ if r.isOk then [Publication.persistent m] else []
  waiting : n'.waiting = n.waiting ++ if r.isOk then [m] else []

/-- An open link publishes in one or two attempts. -/
theorem exists_publishes (m : Message) (opened : l.closed = false) (tracks : n.Tracks) :
    ∃ rs r l' n', l.publish m n = (r, l', n') ∧ Publishes m rs r l n l' n' := by
  obtain ⟨rs, l', n', tries, ended⟩ := exists_tries m l n opened
  have works := tries.works tracks
  obtain ⟨h, rfl | ⟨cause, rfl⟩⟩ | ⟨first, cause, h, rfl⟩ := ended
  all_goals
    refine ⟨_, _, l', n', h, tries, by simp, by simp, by simp [eq_comm], works.hindrances,
      works.published, works.waiting⟩

/-- The server closes the channel of a publisher, and its connection as well unless that is
kept. -/
def lapse (kept : Bool) (l : Link η) (n : Network) : Link η × Network :=
  match l.publisher with
  | none => (l, n)
  | some p =>
    ({ l with publisher := some { p with channelOpen := false } },
      if kept then n else { n with live := n.live.filter (· != p.connection) })

theorem works_lapse (kept : Bool) (tracks : n.Tracks) :
    Works 0 [] l n (l.lapse kept n).1 (l.lapse kept n).2 := by
  unfold lapse
  cases hp : l.publisher with
  | none => exact works_refl tracks
  | some p =>
    have same : ({ l with publisher := some { p with channelOpen := false } } : Link η).connection?
        = l.connection? := by
      simp [connection?, hp]
    have works : Works 0 [] l n { l with publisher := some { p with channelOpen := false } } n :=
      { works_refl (l := l) tracks with
        link := rfl
        fresh := fun c own => Or.inl (same ▸ own)
        elsewhere := by rw [elsewhere, same, elsewhere] }
    cases kept with
    | true => exact works
    | false =>
      exact { works with
        tracks := ⟨tracks.nodup.filter _, fun c hc => tracks.le c (List.mem_filter.1 hc).1⟩
        elsewhere := by
          rw [← works.elsewhere]
          simp only [elsewhere, same, Bool.false_eq_true, if_false, List.filter_filter]
          refine List.filter_congr fun c _ => Bool.eq_iff_iff.2 ?_
          simp [connection?, hp, eq_comm (a := p.connection)] }

end Link

namespace Amqp

open Stepwise.Link (Works Errand Publishes)

variable {σ η : Type}

/-! ## Sites -/

/-- The connection that a link of a site publishes over. -/
def Site.connection? (site : Site σ η) (k : Nat) : Option Nat :=
  site.links[k]?.bind Link.connection?

/-- What processes do before they close their links. -/
inductive Call where
  | on (k : Nat) (errand : Errand)
  /-- A process of its own connects a link and declares queues. -/
  | connect (address : Address) (prefetch : Int) (queues : List String)

def Call.perform (call : Call) (site : Site σ η) : Except Refusal Unit × Site σ η :=
  match call with
  | .on k errand => site.onLink k (.ok ()) errand.perform
  | .connect address prefetch queues =>
    match Link.connect address prefetch queues site.network with
    | (.ok l, n) => (.ok (), { site with links := site.links ++ [l], network := n })
    | (.error refusal, n) => (.error refusal, { site with network := n })

/-- A call, or what the server does to a link between the calls. -/
inductive Turn where
  | call (c : Call)
  | lapse (k : Nat) (kept : Bool)

def Turn.take (turn : Turn) (site : Site σ η) : Site σ η :=
  match turn with
  | .call c => (c.perform site).2
  | .lapse k kept => (site.onLink k () fun l n => ((), l.lapse kept n)).2

/-- A site after turns, the first one first. -/
def Site.after (site : Site σ η) (turns : List Turn) : Site σ η :=
  turns.foldl (fun site turn => turn.take site) site

/-- Links that have not opened any connection, and a server whose failures are to come. -/
def Site.idle (state : σ) (targets : List (Address × Int)) (due : Hazard → List Bool) : Site σ η :=
  ⟨state, targets.map fun t => .idle t.1 t.2, { Network.fresh with due }⟩

/-- Every open connection belongs to one of the links, none of which is closed. -/
structure Site.Held (site : Site σ η) : Prop where
  tracks : site.network.Tracks
  stored : ∀ c ∈ site.network.live, ∃ k, site.connection? k = some c
  apart : ∀ i j c, site.connection? i = some c → site.connection? j = some c → i = j
  known : ∀ k c, site.connection? k = some c → c ≤ site.network.opened
  opened : ∀ l ∈ site.links, l.closed = false

variable {site : Site σ η} {k : Nat} {l l' : Link η} {n' : Network} {failed : Nat}
variable {sent : List Message}

theorem held_idle (state : σ) (targets : List (Address × Int)) (due : Hazard → List Bool) :
    (Site.idle state targets due : Site σ η).Held := by
  have none (k : Nat) : (Site.idle state targets due : Site σ η).connection? k = .none := by
    simp only [Site.connection?, Site.idle, List.getElem?_map]
    cases targets[k]? <;> rfl
  refine ⟨⟨List.nodup_nil, by simp [Site.idle, Network.fresh]⟩, by simp [Site.idle, Network.fresh],
    ?_, ?_, ?_⟩
  · intro i j c hi
    simp [none] at hi
  · intro i c hi
    simp [none] at hi
  · intro l hl
    obtain ⟨t, -, rfl⟩ := List.mem_map.1 hl
    rfl

theorem connection?_set (found : site.links[k]? = some l) (i : Nat) :
    ({ site with links := site.links.set k l', network := n' } : Site σ η).connection? i =
      if i = k then l'.connection? else site.connection? i := by
  have lt := (List.getElem?_eq_some_iff.1 found).1
  by_cases same : i = k
  · subst same
    simp [Site.connection?, lt]
  · rw [if_neg same, Site.connection?, List.getElem?_set_ne (Ne.symm same), Site.connection?]

/-- The work of one link takes nothing from the others. -/
theorem held_of_works (held : site.Held) (found : site.links[k]? = some l)
    (works : Works failed sent l site.network l' n') :
    ({ site with links := site.links.set k l', network := n' } : Site σ η).Held := by
  have own : site.connection? k = l.connection? := by
    rw [Site.connection?, found, Option.bind_some]
  -- a connection that the link gets is younger than all that the others have
  have alone {j c : Nat} (mine : l'.connection? = some c) (other : j ≠ k) :
      site.connection? j ≠ some c := by
    intro theirs
    rcases works.fresh c mine with before | ⟨young, -⟩
    · exact other (held.apart j k c theirs (own.trans before))
    · exact absurd (held.known j c theirs) (Nat.not_le_of_lt young)
  refine ⟨works.tracks, fun c hc => ?_, fun i j c hi hj => ?_, fun i c hi => ?_, fun x hx => ?_⟩
  · by_cases mine : l'.connection? = some c
    · exact ⟨k, by rw [connection?_set found, if_pos rfl, mine]⟩
    · have other : c ∈ l'.elsewhere n' := List.mem_filter.2 ⟨hc, by simpa using mine⟩
      rw [works.elsewhere] at other
      obtain ⟨before, theirs⟩ := List.mem_filter.1 other
      obtain ⟨i, hi⟩ := held.stored c before
      refine ⟨i, ?_⟩
      rw [connection?_set found, if_neg, hi]
      rintro rfl
      simp [← own, hi] at theirs
  · rw [connection?_set found] at hi hj
    split at hi <;> split at hj
    · next hi' hj' => rw [hi', hj']
    · next other => exact absurd hj (alone hi other)
    · next other _ => exact absurd hi (alone hj other)
    · exact held.apart i j c hi hj
  · rw [connection?_set found] at hi
    split at hi
    · rcases works.fresh c hi with before | ⟨-, within⟩
      · exact Nat.le_trans (held.known k c (own.trans before)) works.opened
      · exact within
    · exact Nat.le_trans (held.known i c hi) works.opened
  · rcases List.mem_or_eq_of_mem_set hx with hx | rfl
    · exact held.opened x hx
    · rw [works.link]
      exact held.opened l (List.mem_of_getElem? found)

/-- What a link does as its own work keeps the site in order. -/
theorem held_onLink {β : Type} {otherwise : β} {f : Link η → Network → β × Link η × Network}
    (held : site.Held)
    (works : ∀ l, site.links[k]? = some l → ∃ failed sent,
      Works failed sent l site.network (f l site.network).2.1 (f l site.network).2.2) :
    (site.onLink k otherwise f).2.Held := by
  unfold Site.onLink
  cases found : site.links[k]? with
  | none => exact held
  | some l =>
    obtain ⟨failed, sent, works⟩ := works l found
    exact held_of_works held found works

/-- A link that is added without a connection changes nothing for the others. -/
theorem held_append (held : site.Held) (address : Address) (prefetch : Int) :
    ({ site with links := site.links ++ [.idle address prefetch] } : Site σ η).Held := by
  have same (i : Nat) : ({ site with links := site.links ++ [.idle address prefetch] } :
      Site σ η).connection? i = site.connection? i := by
    rcases Nat.lt_trichotomy i site.links.length with lt | rfl | gt
    · simp [Site.connection?, List.getElem?_append_left lt]
    · simp [Site.connection?, Link.connection?, Link.idle]
    · rw [Site.connection?, List.getElem?_eq_none, Site.connection?, List.getElem?_eq_none]
      · exact Nat.le_of_lt gt
      · simpa using Nat.succ_le_of_lt gt
  refine ⟨held.tracks, ?_, ?_, ?_, fun x hx => ?_⟩
  · simpa only [same] using held.stored
  · simpa only [same] using held.apart
  · simpa only [same] using held.known
  · rcases List.mem_append.1 hx with hx | hx
    · exact held.opened x hx
    · rw [List.mem_singleton.1 hx]
      rfl

/-- Connecting a link either gives an open one after some work on an idle one, or leaves the
connections as they are. -/
theorem connect_cases (address : Address) (prefetch : Int) (queues : List String) {n : Network}
    (tracks : n.Tracks) :
    (∃ (failed : Nat) (sent : List Message) (l : Link η) (n' : Network),
      Link.connect address prefetch queues n = (.ok l, n') ∧
        Works failed sent (.idle address prefetch) n l n') ∨
    ∃ (refusal : Refusal) (n' : Network),
      (Link.connect address prefetch queues n : Except Refusal (Link η) × Network) =
        (.error refusal, n') ∧
      n'.Tracks ∧ n'.live = n.live ∧ n.opened ≤ n'.opened := by
  unfold Link.connect
  have ends := Link.ends_declareAll queues (l := (.idle address prefetch : Link η)) tracks
  generalize Link.declareAll queues (.idle address prefetch) n = r at ends
  cases ends with
  | returned works => exact Or.inl ⟨_, _, _, _, rfl, works⟩
  | @refused refusal failed sent l n' works dropped =>
    right
    have none : l.publisher = .none := dropped rfl
    have nobody : l.consumers = [] := by rw [works.link]; rfl
    have closes : (l.close Option.none n').2 = n' := by
      simp [Link.close, Link.stopWhere, Link.reset, none, nobody]
    have live : n'.live = n.live := by
      have same := works.elsewhere
      rwa [Link.elsewhere_of_none none, Link.elsewhere_of_none rfl] at same
    exact ⟨refusal, n', by dsimp only; rw [closes], works.tracks, live, works.opened⟩

theorem held_perform (held : site.Held) (call : Call) : (call.perform site).2.Held := by
  cases call with
  | on k errand => exact held_onLink held fun l _ => (Link.ends_perform errand held.tracks).works
  | connect address prefetch queues =>
    unfold Call.perform
    dsimp only
    obtain ⟨failed, sent, l, n', h, works⟩ | ⟨refusal, n', h, tracks, live, opened⟩ :=
      connect_cases (η := η) address prefetch queues held.tracks
    · rw [h]
      have added := held_append held address prefetch
      have all := held_of_works (k := site.links.length) added (by simp) works
      simpa using all
    · rw [h]
      exact {
        tracks
        stored := fun c hc => held.stored c (live ▸ hc)
        apart := held.apart
        known := fun i c hi => Nat.le_trans (held.known i c hi) opened
        opened := held.opened }

theorem held_after (held : site.Held) (turns : List Turn) : (site.after turns).Held := by
  induction turns generalizing site with
  | nil => exact held
  | cons turn turns ih =>
    refine ih ?_
    cases turn with
    | call c => exact held_perform held c
    | lapse k kept => exact held_onLink held fun l _ => ⟨0, [], Link.works_lapse kept held.tracks⟩

/-- Whatever fails and whatever the server takes away, between two calls every open connection is
the one that exactly one link publishes over.  A call that is refused leaves its link without a
connection, and a process that cannot connect leaves none.  A publish makes one or two attempts; it
returns if one of them succeeds, and then the message was sent once, and it is refused if both fail,
and then nothing was sent. -/
theorem attempts_of_turns (state : σ) (targets : List (Address × Int)) (due : Hazard → List Bool)
    (turns : List Turn) :
    let site : Site σ η := (Site.idle state targets due).after turns
    (∀ c ∈ site.network.live, ∃! k, site.connection? k = some c) ∧
    (∀ k errand refusal site', (Call.on k errand).perform site = (.error refusal, site') →
      site'.connection? k = none) ∧
    (∀ address prefetch queues refusal site',
      (Call.connect address prefetch queues).perform site = (.error refusal, site') →
        site'.network.live = site.network.live ∧ site'.links = site.links) ∧
    ∀ k m l, site.links[k]? = some l → ∃ rs r l' n',
      (Call.on k (.publish m)).perform site =
        (r, { site with links := site.links.set k l', network := n' }) ∧
      Publishes m rs r l site.network l' n' := by
  intro site
  have held : site.Held := held_after (held_idle state targets due) turns
  refine ⟨fun c hc => ?_, ?_, ?_, ?_⟩
  · obtain ⟨k, hk⟩ := held.stored c hc
    exact ⟨k, hk, fun i hi => held.apart i k c hi hk⟩
  · intro k errand refusal site' h
    unfold Call.perform Site.onLink at h
    dsimp only at h
    cases found : site.links[k]? with
    | none => simp [found] at h
    | some l =>
      rw [found] at h
      dsimp only at h
      have ends := Link.ends_perform errand (l := l) held.tracks
      generalize errand.perform l site.network = r at ends h
      cases ends with
      | returned => cases h
      | refused works dropped =>
        cases h
        rw [connection?_set found, if_pos rfl, Link.connection?,
          dropped (held.opened l (List.mem_of_getElem? found)), Option.map_none]
  · intro address prefetch queues refusal site' h
    unfold Call.perform at h
    dsimp only at h
    obtain ⟨failed, sent, l, n', connects, -⟩ | ⟨refusal, n', connects, -, live, -⟩ :=
      connect_cases (η := η) address prefetch queues held.tracks
    · rw [connects] at h
      cases h
    · rw [connects] at h
      cases h
      exact ⟨live, rfl⟩
  · intro k m l found
    obtain ⟨rs, r, l', n', h, publishes⟩ := Link.exists_publishes m
      (held.opened l (List.mem_of_getElem? found)) held.tracks
    refine ⟨rs, r, l', n', ?_, publishes⟩
    simp only [Call.perform, Site.onLink, found, Errand.perform, h]

/-- A site where the first attempt to publish failed, the channel of the second one was lost, and a
process could not connect. -/
def troubled : Site Unit Nat :=
  (Site.idle () [(⟨"localhost", 5672, "/"⟩, 1)] fun
    | .connect => [false, false, true]
    | .publish => [true]
    | _ => []).after
  [.call (.on 0 (.publish ⟨"q", .empty⟩)), .lapse 0 true,
    .call (.connect ⟨"localhost", 5672, "/"⟩ 1 ["q"])]

theorem attempts_of_troubled :
    2 ∈ troubled.network.live ∧ (∃! k, troubled.connection? k = some 2) ∧
      ∃ l, troubled.links[0]? = some l ∧ ∃ rs r l' n',
        (Call.on 0 (.publish ⟨"q", .empty⟩)).perform troubled =
          (r, { troubled with links := troubled.links.set 0 l', network := n' }) ∧
        Publishes ⟨"q", .empty⟩ rs r l troubled.network l' n' := by
  obtain ⟨held, -, -, publishes⟩ := attempts_of_turns (η := Nat) () _ _ _
  have live : 2 ∈ troubled.network.live := by decide +kernel
  exact ⟨live, held 2 live, _, rfl, publishes 0 _ _ rfl⟩

end Amqp

end Stepwise
