import Mathlib.Algebra.Order.Ring.Int
import Mathlib.Data.List.Infix
import Mathlib.Data.Nat.Cast.Order.Ring
import Stepwise.Cli.Run

/-!
# The windows of a benchmark

`Rounds` are the windows of a benchmark as they come out one after another, and `rounds_iff` says
that `windows?` gives all of them, if they end.  `Act` is what a benchmark does with its engine:
`Comes` says where the windows get to, with every send and every wait that returned, and where they
stop if one does not.

A window takes as many expressions as are allowed to be under way, but no more than are left.  So
the windows end and do what was asked for with a size of one and more; with a smaller one they never
end if there is anything to send (`windows_exact_iff`).
-/

namespace Stepwise.Cli.Benchmark

open Stepwise.Installation (Engine)

/-! ## Rounds -/

/-- The windows for a number of expressions: as long as any are left, one more window. -/
inductive Rounds (window : Int) : Int → List Int → Prop where
  | finished {remaining : Int} (none : remaining ≤ 0) : Rounds window remaining []
  | round {remaining : Int} {sizes : List Int} (left : 0 < remaining)
      (rest : Rounds window (remaining - min window remaining) sizes) :
      Rounds window remaining (min window remaining :: sizes)

variable {window remaining count : Int} {rounds rounds' : List Int}

theorem Rounds.unique (h : Rounds window remaining rounds) (h' : Rounds window remaining rounds') :
    rounds = rounds' := by
  induction h generalizing rounds' with
  | finished none =>
    cases h' with
    | finished => rfl
    | round left => omega
  | round left _ ih =>
    cases h' with
    | finished none => omega
    | round _ rest => rw [ih rest]

/-- A window that takes nothing leaves as much to do as there was. -/
theorem not_rounds (empty : window ≤ 0) (left : 0 < remaining) :
    ¬ Rounds window remaining rounds := by
  intro h
  induction h with
  | finished none => omega
  | round _ _ ih => exact ih (by omega)

theorem rounds_windowsOf (size : Nat) (positive : 0 < size) (remaining : Nat) :
    Rounds size remaining ((windowsOf size positive remaining).map Nat.cast) := by
  induction remaining using Nat.strongRecOn with
  | ind remaining ih =>
    rw [windowsOf]
    split
    · next none => exact .finished (by omega)
    · next left =>
      have rest := ih (remaining - min size remaining) (by omega)
      have less : ((remaining - min size remaining : Nat) : Int) =
          (remaining : Int) - min (size : Int) remaining := by omega
      rw [less] at rest
      rw [List.map_cons, Nat.cast_min]
      exact .round (by omega) rest

/-- The windows of a benchmark are all of them, if they end. -/
theorem rounds_iff :
    Rounds window count rounds ↔ ∃ sizes, windows? count window = some sizes ∧
      rounds = sizes.map Nat.cast := by
  unfold windows?
  split
  · next none =>
    constructor
    · intro h
      exact ⟨[], rfl, h.unique (.finished none)⟩
    · rintro ⟨sizes, ⟨⟩, rfl⟩
      exact .finished none
  · next left =>
    split
    · next positive =>
      have all := rounds_windowsOf window.toNat (by omega) count.toNat
      rw [Int.toNat_of_nonneg (by omega), Int.toNat_of_nonneg (by omega)] at all
      constructor
      · intro h
        exact ⟨_, rfl, h.unique all⟩
      · rintro ⟨sizes, ⟨⟩, rfl⟩
        exact all
    · next empty =>
      constructor
      · intro h
        exact absurd h (not_rounds (by omega) (by omega))
      · rintro ⟨sizes, ⟨⟩, -⟩

theorem sum_windowsOf (size : Nat) (positive : 0 < size) (remaining : Nat) :
    (windowsOf size positive remaining).sum = remaining := by
  induction remaining using Nat.strongRecOn with
  | ind remaining ih =>
    rw [windowsOf]
    split
    · next none => exact none.symm
    · next left =>
      rw [List.sum_cons, ih _ (by omega)]
      omega

theorem le_of_mem_windowsOf {size : Nat} {positive : 0 < size} {remaining n : Nat}
    (mem : n ∈ windowsOf size positive remaining) : n ≤ size := by
  induction remaining using Nat.strongRecOn with
  | ind remaining ih =>
    rw [windowsOf] at mem
    split at mem
    · cases mem
    · rcases List.mem_cons.1 mem with rfl | mem
      · exact Nat.min_le_left _ _
      · exact ih _ (by omega) mem

/-- Together the windows take what is asked for, and none of them too much. -/
theorem windows?_spec {sizes : List Nat} (h : windows? count window = some sizes) :
    sizes.sum = count.toNat ∧ ∀ n ∈ sizes, (n : Int) ≤ window := by
  unfold windows? at h
  split at h
  · cases h
    exact ⟨by simp; omega, by simp⟩
  · split at h
    · cases h
      refine ⟨sum_windowsOf _ _ _, fun n mem => ?_⟩
      have := le_of_mem_windowsOf mem
      omega
    · cases h

/-! ## Acts -/

/-- What a benchmark does with its engine. -/
inductive Act where
  | send (t : Ticket)
  | wait (t : Ticket) (r : ExpressionResponse)

def Act.sent? : Act → Option Ticket
  | send t => some t
  | wait _ _ => none

def Act.waited? : Act → Option Ticket
  | send _ => none
  | wait t _ => some t

def Act.answer? : Act → Option ExpressionResponse
  | send _ => none
  | wait _ r => some r

/-- The tickets of the expressions that were sent, in order. -/
def sent (acts : List Act) : List Ticket := acts.filterMap Act.sent?

/-- The tickets that were waited for, in order. -/
def waited (acts : List Act) : List Ticket := acts.filterMap Act.waited?

/-- The responses that came, in order. -/
def answers (acts : List Act) : List ExpressionResponse := acts.filterMap Act.answer?

/-- The number of tickets that are outstanding after some acts. -/
def outstanding (acts : List Act) : Int := (sent acts).length - (waited acts).length

/-- The acts of sending tickets. -/
def sends (tickets : List Ticket) : List Act := tickets.map Act.send

/-- The acts of waiting for tickets, with their responses. -/
def waits (answered : List (Ticket × ExpressionResponse)) : List Act :=
  answered.map fun a => Act.wait a.1 a.2

section Lists

variable (acts acts' : List Act) (tickets : List Ticket)
  (answered : List (Ticket × ExpressionResponse))

@[simp] theorem sent_append : sent (acts ++ acts') = sent acts ++ sent acts' :=
  List.filterMap_append

@[simp] theorem waited_append : waited (acts ++ acts') = waited acts ++ waited acts' :=
  List.filterMap_append

@[simp] theorem answers_append : answers (acts ++ acts') = answers acts ++ answers acts' :=
  List.filterMap_append

@[simp] theorem sent_sends : sent (sends tickets) = tickets := by
  simp [sent, sends, List.filterMap_map, Function.comp_def, Act.sent?]

@[simp] theorem waited_sends : waited (sends tickets) = [] := by
  simp [waited, sends, Act.waited?]

@[simp] theorem answers_sends : answers (sends tickets) = [] := by
  simp [answers, sends, Act.answer?]

@[simp] theorem sent_waits : sent (waits answered) = [] := by
  simp [sent, waits, Act.sent?]

@[simp] theorem waited_waits : waited (waits answered) = answered.map (·.1) := by
  simp [waited, waits, List.filterMap_map, Function.comp_def, Act.waited?]

@[simp] theorem answers_waits : answers (waits answered) = answered.map (·.2) := by
  simp [answers, waits, List.filterMap_map, Function.comp_def, Act.answer?]

end Lists

/-- At no time more tickets are outstanding than a number. -/
def Within (window : Int) (acts : List Act) : Prop :=
  ∀ before, before <+: acts → outstanding before ≤ window

theorem within_of_sent {acts : List Act} (few : ((sent acts).length : Int) ≤ window) :
    Within window acts := by
  rintro before ⟨after, rfl⟩
  rw [sent_append, List.length_append] at few
  rw [outstanding]
  omega

theorem Within.append {acts acts' : List Act} (first : Within window acts)
    (settled : waited acts = sent acts) (second : Within window acts') :
    Within window (acts ++ acts') := by
  intro before h
  rcases List.prefix_or_prefix_of_prefix h (List.prefix_append acts acts') with inside | ⟨rest, rfl⟩
  · exact first before inside
  · have := second rest ((List.prefix_append_right_inj acts).1 h)
    rw [outstanding] at this ⊢
    rw [sent_append, waited_append, settled, List.length_append, List.length_append]
    omega

/-! ## Windows of a host -/

variable {σ : Type} (h : Host (StateM σ)) (settings : Settings) (expression : String)
  (deadlineMs : Option Int)

/-- A host's clock tells a time in some state of the host. -/
def Tells (clock : Int) : Prop := ∃ s, (h.now s).1 = clock

/-- Acts that lead from one engine to another, each of them a call that returned at a time that the
host told. -/
inductive Leads : Engine → List Act → Engine → Prop where
  | nil {engine : Engine} : Leads engine [] engine
  | send {engine next last : Engine} {acts : List Act} {t : Ticket} {clock : Int}
      (told : Tells h clock)
      (first : engine.send settings clock expression deadlineMs = some (.ok t, next))
      (rest : Leads next acts last) : Leads engine (.send t :: acts) last
  | wait {engine next last : Engine} {acts : List Act} {t : Ticket} {r : ExpressionResponse}
      {clock : Int} (told : Tells h clock)
      (first : engine.wait settings clock t = some (.ok r, next))
      (rest : Leads next acts last) : Leads engine (.wait t r :: acts) last

/-- An engine on which a send does not return a ticket. -/
def Unsent (engine : Engine) : Prop :=
  ∃ clock, Tells h clock ∧
    ∀ t next, engine.send settings clock expression deadlineMs ≠ some (.ok t, next)

/-- An engine on which the wait for a ticket does not return a response. -/
def Unanswered (engine : Engine) (t : Ticket) : Prop :=
  ∃ clock, Tells h clock ∧ ∀ r next, engine.wait settings clock t ≠ some (.ok r, next)

/-- Not all is sent and the next send does not return, or the wait for the next ticket does not. -/
def Stalls (count : Nat) (acts : List Act) (engine : Engine) : Prop :=
  (sent acts).length < count ∧ Unsent h settings expression deadlineMs engine ∨
    ∃ t rest, sent acts = waited acts ++ t :: rest ∧ Unanswered h settings engine t

/-- Where windows with so many expressions get to. -/
inductive Comes (count : Nat) (p : Progress) (acts : List Act) :
    Except Escape Progress → Prop where
  | completed {p' : Progress}
      (leads : Leads h settings expression deadlineMs p.engine acts p'.engine)
      (sends : (sent acts).length = count) (waits : waited acts = sent acts)
      (latencies : p'.latencies.length = p.latencies.length + count)
      (errors : p'.errors = p.errors + (answers acts).countP (!isValue ·)) :
      Comes count p acts (.ok p')
  | stalled {e : Escape} {last : Engine}
      (leads : Leads h settings expression deadlineMs p.engine acts last)
      (sends : (sent acts).length ≤ count) (waits : waited acts <+: sent acts)
      (stalls : Stalls h settings expression deadlineMs count acts last) :
      Comes count p acts (.error e)

variable {h settings expression deadlineMs}

theorem Leads.append {engine middle last : Engine} {acts acts' : List Act}
    (first : Leads h settings expression deadlineMs engine acts middle)
    (second : Leads h settings expression deadlineMs middle acts' last) :
    Leads h settings expression deadlineMs engine (acts ++ acts') last := by
  induction first with
  | nil => exact second
  | send told step _ ih => exact .send told step (ih second)
  | wait told step _ ih => exact .wait told step (ih second)

/-- What comes after a window that was completed. -/
theorem Comes.trans {m n : Nat} {p p' : Progress} {acts acts' : List Act}
    {r : Except Escape Progress} (first : Comes h settings expression deadlineMs m p acts (.ok p'))
    (second : Comes h settings expression deadlineMs n p' acts' r) :
    Comes h settings expression deadlineMs (m + n) p (acts ++ acts') r := by
  cases first with
  | completed leads sends waits latencies errors =>
    cases second with
    | completed leads' sends' waits' latencies' errors' =>
      refine .completed (leads.append leads') ?_ ?_ ?_ ?_
      · rw [sent_append, List.length_append, sends, sends']
      · rw [waited_append, sent_append, waits, waits']
      · rw [latencies', latencies, Nat.add_assoc]
      · rw [errors', errors, answers_append, List.countP_append, Nat.add_assoc]
    | stalled leads' sends' waits' stalls =>
      refine .stalled (leads.append leads') ?_ ?_ (stalls.imp ?_ ?_)
      · rw [sent_append, List.length_append, sends]
        exact Nat.add_le_add_left sends' m
      · rw [waited_append, sent_append, waits]
        exact (List.prefix_append_right_inj _).2 waits'
      · rintro ⟨less, stuck⟩
        rw [sent_append, List.length_append, sends]
        exact ⟨Nat.add_lt_add_left less m, stuck⟩
      · rintro ⟨t, rest, split, stuck⟩
        exact ⟨t, rest, by rw [sent_append, waited_append, waits, split, List.append_assoc], stuck⟩

theorem Comes.settled {n : Nat} {p p' : Progress} {acts : List Act}
    (comes : Comes h settings expression deadlineMs n p acts (.ok p')) :
    waited acts = sent acts := by
  cases comes with
  | completed _ _ waits => exact waits

/-- Windows that stop do so with more windows behind them, too. -/
theorem Comes.mono {m n : Nat} {p : Progress} {acts : List Act} {e : Escape}
    (comes : Comes h settings expression deadlineMs m p acts (.error e)) (le : m ≤ n) :
    Comes h settings expression deadlineMs n p acts (.error e) := by
  cases comes with
  | stalled leads sends waits stalls =>
    exact .stalled leads (Nat.le_trans sends le) waits
      (stalls.imp_left fun stuck => ⟨Nat.lt_of_lt_of_le stuck.1 le, stuck.2⟩)

variable (h settings expression deadlineMs) in
/-- Sending a window gives as many tickets as asked for, or stops at a send that does not return. -/
theorem sendWindow_cases (n : Nat) (engine : Engine) (s : σ) :
    (∃ tickets last s', sendWindow h settings expression deadlineMs n engine s =
        (.ok (tickets, last), s') ∧ tickets.length = n ∧
      Leads h settings expression deadlineMs engine (sends (tickets.map (·.2))) last) ∨
    ∃ e s' tickets last, sendWindow h settings expression deadlineMs n engine s = (.error e, s') ∧
      tickets.length < n ∧ Leads h settings expression deadlineMs engine (sends tickets) last ∧
      Unsent h settings expression deadlineMs last := by
  induction n generalizing engine s with
  | zero => exact Or.inl ⟨[], engine, s, rfl, rfl, .nil⟩
  | succ n ih =>
    obtain ⟨⟨first, s₁⟩, hs₁⟩ : ∃ r, h.seconds s = r := ⟨_, rfl⟩
    obtain ⟨⟨clock, s₂⟩, hs₂⟩ : ∃ r, h.now s₁ = r := ⟨_, rfl⟩
    have told : Tells h clock := ⟨s₁, by rw [hs₂]⟩
    unfold sendWindow
    simp only [bind, StateT.bind, hs₁, hs₂]
    cases hsend : engine.send settings clock expression deadlineMs with
    | none =>
      exact Or.inr ⟨_, _, [], engine, rfl, Nat.zero_lt_succ n, .nil, clock, told, by simp [hsend]⟩
    | some r =>
      obtain ⟨fault | t, next⟩ := r
      · exact Or.inr ⟨_, _, [], engine, rfl, Nat.zero_lt_succ n, .nil, clock, told,
          by simp [hsend]⟩
      · dsimp only [StateT.bind]
        rcases ih next s₂ with ⟨tickets, last, s', hrest, length, leads⟩ |
          ⟨e, s', tickets, last, hrest, length, leads, stuck⟩
        · rw [hrest]
          exact Or.inl ⟨_, _, _, rfl, by rw [List.length_cons, length], .send told hsend leads⟩
        · rw [hrest]
          exact Or.inr ⟨_, _, t :: tickets, last, rfl, Nat.succ_lt_succ length,
            .send told hsend leads, stuck⟩

variable (h settings expression deadlineMs) in
/-- Waiting for a window gives a response and a latency for each ticket, or stops at a wait that
does not return. -/
theorem waitWindow_cases (tickets : List (Float × Ticket)) (p : Progress) (s : σ) :
    (∃ p' s' answered, waitWindow h settings tickets p s = (.ok p', s') ∧
      answered.map (·.1) = tickets.map (·.2) ∧
      Leads h settings expression deadlineMs p.engine (waits answered) p'.engine ∧
      p'.latencies.length = p.latencies.length + tickets.length ∧
      p'.errors = p.errors + (answered.map (·.2)).countP (!isValue ·)) ∨
    ∃ e s' answered last t rest, waitWindow h settings tickets p s = (.error e, s') ∧
      tickets.map (·.2) = answered.map (·.1) ++ t :: rest ∧
      Leads h settings expression deadlineMs p.engine (waits answered) last ∧
      Unanswered h settings last t := by
  induction tickets generalizing p s with
  | nil => exact Or.inl ⟨p, s, [], rfl, rfl, .nil, rfl, rfl⟩
  | cons ticket tickets ih =>
    obtain ⟨first, t⟩ := ticket
    obtain ⟨⟨clock, s₁⟩, hs₁⟩ : ∃ r, h.now s = r := ⟨_, rfl⟩
    have told : Tells h clock := ⟨s, by rw [hs₁]⟩
    unfold waitWindow
    simp only [bind, StateT.bind, hs₁]
    cases hwait : p.engine.wait settings clock t with
    | none =>
      exact Or.inr ⟨_, _, [], p.engine, t, _, rfl, rfl, .nil, clock, told, by simp [hwait]⟩
    | some r =>
      obtain ⟨fault | r, next⟩ := r
      · exact Or.inr ⟨_, _, [], p.engine, t, _, rfl, rfl, .nil, clock, told, by simp [hwait]⟩
      · obtain ⟨⟨last, s₂⟩, hs₂⟩ : ∃ r, h.seconds s₁ = r := ⟨_, rfl⟩
        dsimp only [StateT.bind, bind]
        rw [hs₂]
        dsimp only
        obtain ⟨p₁, hp₁⟩ : ∃ p₁ : Progress, p₁ = ⟨next,
          if isValue r then p.errors else p.errors + 1, elapsedMs first last :: p.latencies⟩ :=
          ⟨_, rfl⟩
        have engine : p₁.engine = next := by rw [hp₁]
        rw [← hp₁]
        rcases ih p₁ s₂ with ⟨p', s', answered, hrest, same, leads, latencies, errors⟩ |
          ⟨e, s', answered, last, t', rest, hrest, same, leads, stuck⟩
        · refine Or.inl ⟨p', s', (t, r) :: answered, hrest, congrArg (t :: ·) same,
            .wait told hwait (engine ▸ leads), ?_, ?_⟩
          · rw [latencies, hp₁, List.length_cons, List.length_cons]
            omega
          · rw [errors, hp₁, List.map_cons, List.countP_cons]
            cases isValue r <;> simp
            omega
        · exact Or.inr ⟨e, s', (t, r) :: answered, last, t', rest, hrest, congrArg (t :: ·) same,
            .wait told hwait (engine ▸ leads), stuck⟩

variable (h settings expression deadlineMs) in
/-- One window is completed and the others go on from there, or all of them stop in it. -/
theorem runWindows_cases (n : Nat) (p : Progress) (s : σ) :
    ∃ acts, (sent acts).length ≤ n ∧
      ((∃ p' s', (∀ sizes, runWindows h settings expression deadlineMs (n :: sizes) p s =
            runWindows h settings expression deadlineMs sizes p' s') ∧
          Comes h settings expression deadlineMs n p acts (.ok p')) ∨
        ∃ e, (∀ sizes, (runWindows h settings expression deadlineMs (n :: sizes) p s).1 =
            .error e) ∧
          Comes h settings expression deadlineMs n p acts (.error e)) := by
  simp only [runWindows, bind, StateT.bind]
  rcases sendWindow_cases h settings expression deadlineMs n p.engine s with
    ⟨tickets, middle, s₁, hsend, length, sending⟩ |
    ⟨e, s₁, tickets, last, hsend, length, sending, stuck⟩
  · simp only [hsend, StateT.bind]
    rcases waitWindow_cases h settings expression deadlineMs tickets
        { p with engine := middle } s₁ with
      ⟨p₁, s₂, answered, hwait, same, waiting, latencies, errors⟩ |
      ⟨e, s₂, answered, last, t, others, hwait, same, waiting, stuck⟩
    · simp only [hwait]
      refine ⟨sends (tickets.map (·.2)) ++ waits answered, by simp [length],
        Or.inl ⟨p₁, s₂, fun _ => rfl, .completed (sending.append waiting) ?_ ?_ ?_ ?_⟩⟩
      · simp [length]
      · simp [same]
      · rw [latencies, length]
      · simpa using errors
    · simp only [hwait]
      refine ⟨sends (tickets.map (·.2)) ++ waits answered, by simp [length],
        Or.inr ⟨e, fun _ => rfl, .stalled (sending.append waiting) ?_ ?_ ?_⟩⟩
      · simp [length]
      · simp [same]
      · exact Or.inr ⟨t, others, by simp [same], stuck⟩
  · simp only [hsend]
    refine ⟨sends tickets, by simpa using length.le,
      Or.inr ⟨e, fun _ => rfl, .stalled sending ?_ ?_ (Or.inl ⟨?_, stuck⟩)⟩⟩
    · simpa using length.le
    · simp
    · simpa using length

/-- The windows get to their end with everything that was asked for, or stop at a call of the
engine that does not return, and at no time more tickets are outstanding than a window takes. -/
theorem exists_comes (sizes : List Nat) (fit : ∀ n ∈ sizes, (n : Int) ≤ window) (p : Progress)
    (s : σ) (nonneg : 0 ≤ window) :
    ∃ acts, Within window acts ∧ Comes h settings expression deadlineMs sizes.sum p acts
      (runWindows h settings expression deadlineMs sizes p s).1 := by
  induction sizes generalizing p s with
  | nil => exact ⟨[], within_of_sent nonneg, .completed .nil rfl rfl rfl rfl⟩
  | cons n sizes ih =>
    obtain ⟨fits, rest⟩ := List.forall_mem_cons.1 fit
    rw [List.sum_cons]
    obtain ⟨acts, few, ⟨p', s', goes, comes⟩ | ⟨e, stops, comes⟩⟩ :=
      runWindows_cases h settings expression deadlineMs n p s
    · obtain ⟨others, within, more⟩ := ih rest p' s'
      have first : Within window acts := within_of_sent (by omega)
      rw [goes]
      exact ⟨acts ++ others, first.append comes.settled within, comes.trans more⟩
    · rw [stops]
      exact ⟨acts, within_of_sent (by omega), comes.mono (Nat.le_add_right _ _)⟩

/-- The windows of a benchmark end if they take something or if there is nothing to send.  They do
exactly what was asked for, as far as the calls of the engine return, and never have more tickets
outstanding than a window takes, if a window takes something, or if there is nothing to send and a
window does not take less than nothing. -/
theorem windows_exact_iff {σ : Type} (h : Host (StateM σ)) (settings : Settings)
    (expression : String) (deadlineMs : Option Int) (engine : Engine) (s : σ)
    (count window : Int) :
    ((∃ rounds, Rounds window count rounds) ↔ 0 < window ∨ count ≤ 0) ∧
    ((∃ sizes acts, windows? count window = some sizes ∧
        Rounds window count (sizes.map Nat.cast) ∧
        Comes h settings expression deadlineMs count.toNat ⟨engine, 0, []⟩ acts
          (runWindows h settings expression deadlineMs sizes ⟨engine, 0, []⟩ s).1 ∧
        Within window acts) ↔
      0 < window ∨ count ≤ 0 ∧ 0 ≤ window) := by
  have ends : (∃ rounds, Rounds window count rounds) ↔ 0 < window ∨ count ≤ 0 := by
    simp only [rounds_iff, windows?]
    constructor
    · rintro ⟨rounds, sizes, h, -⟩
      split at h
      · next none => exact Or.inr none
      · split at h
        · next positive => exact Or.inl positive
        · cases h
    · intro fine
      split
      · exact ⟨_, _, rfl, rfl⟩
      · rw [dif_pos (by omega)]
        exact ⟨_, _, rfl, rfl⟩
  refine ⟨ends, ?_, fun fine => ?_⟩
  · rintro ⟨sizes, acts, found, rounds, -, within⟩
    -- before anything is sent nothing is outstanding, which is no less than a window may take
    have nonneg : (0 : Int) ≤ window := within [] (List.nil_prefix)
    have := ends.1 ⟨_, rounds⟩
    omega
  · obtain ⟨rounds, h⟩ := ends.2 (by omega)
    obtain ⟨sizes, found, rfl⟩ := rounds_iff.1 h
    obtain ⟨sum, fit⟩ := windows?_spec found
    obtain ⟨acts, within, comes⟩ := exists_comes sizes fit ⟨engine, 0, []⟩ s (by omega)
    exact ⟨sizes, acts, found, h, sum ▸ comes, within⟩

/-- The command line takes any integer for the size of a window: one below zero, which is exceeded
before anything is sent, and zero, with which a benchmark of one expression never ends. -/
theorem any_window_is_taken :
    (Command.parse ["bench", "--sync", "-n", "0", "-c", "-1"] =
        .ok (.benchmark (some "((4+3)*2)/5") 0 (-1) ⟨none, true, false⟩) ∧ ¬ Within (-1) []) ∧
      Command.parse ["bench", "--sync", "-n", "1", "-c", "0"] =
        .ok (.benchmark (some "((4+3)*2)/5") 1 0 ⟨none, true, false⟩) ∧
      ¬ ∃ rounds, Rounds 0 1 rounds := by
  refine ⟨⟨by decide +kernel, fun within => ?_⟩, by decide +kernel, ?_⟩
  · exact absurd (within [] List.nil_prefix) (by decide)
  · rintro ⟨rounds, h⟩
    exact not_rounds (by decide) (by decide) h

end Stepwise.Cli.Benchmark
