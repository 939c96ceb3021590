import Stepwise.Text.Wrap

/-!
# Markup

Texts for the terminal may hold tags in brackets, which choose styles: `[red]` opens one, `[/red]`
closes it and `[/]` closes the latest.  On a terminal without styles the tags just disappear.  A
backslash before a bracket makes it an ordinary character.
-/

namespace Stepwise.Cli

/-- A piece of a text with markup. -/
inductive Piece where
  | plain (cs : List Char)
  | tag (name : List Char)
  deriving Repr

namespace Markup

/-- Characters that a tag may begin with. -/
def beginsTag (c : Char) : Bool :=
  ('a' ≤ c && c ≤ 'z') || c == '#' || c == '/' || c == '@'

/-- The content of a tag and what follows its closing bracket, if a tag begins here. -/
def content? : List Char → Option (List Char × List Char)
  | [] => none
  | c :: rest =>
    if !beginsTag c then none else
    let inner := rest.takeWhile fun d => d != ']' && d != '['
    match rest.drop inner.length with
    | d :: after => if d == ']' then some (c :: inner, after) else none
    | [] => none

theorem content?_length {cs inner after : List Char} (h : content? cs = some (inner, after)) :
    after.length < cs.length := by
  unfold content? at h
  split at h
  · simp at h
  · split at h
    · simp at h
    · rename_i c rest _
      simp only at h
      split at h
      · rename_i d tail heq
        split at h
        · simp only [Option.some.injEq, Prod.mk.injEq] at h
          have := congrArg List.length heq
          simp only [List.length_drop, List.length_cons] at this ⊢
          rw [← h.2]
          omega
        · simp at h
      · simp at h

/-- The pieces of a text.  Backslashes before a tag stand for half as many, and an odd one keeps
the tag from being one; other backslashes stand for themselves, but one before a bracket is
dropped. -/
def pieces (cs : List Char) : List Piece :=
  match cs with
  | [] => []
  | c :: rest =>
    if c == '[' then
      match h : content? rest with
      | some (inner, after) =>
        have : after.length < (c :: rest).length := by
          have := content?_length h
          simp only [List.length_cons]
          omega
        .tag (inner.takeWhile (· != '=')) :: pieces after
      | none => .plain [c] :: pieces rest
    else if c == '\\' then
      let slashes := rest.takeWhile (· == '\\')
      match h : rest.drop slashes.length with
      | [] => .plain (c :: slashes) :: []
      | d :: after =>
        have hlen : after.length < rest.length := by
          have := congrArg List.length h
          simp only [List.length_drop, List.length_cons] at this
          omega
        if d == '[' then
          let count := slashes.length + 1
          match h' : content? after with
          | some (inner, tail) =>
            have : tail.length < (c :: rest).length := by
              have := content?_length h'
              simp only [List.length_cons]
              omega
            let half := List.replicate (count / 2) '\\'
            if count % 2 == 1 then
              .plain (half ++ '[' :: inner ++ [']']) :: pieces tail
            else .plain half :: .tag (inner.takeWhile (· != '=')) :: pieces tail
          | none =>
            have : after.length < (c :: rest).length := by
              simp only [List.length_cons]
              omega
            .plain (slashes ++ ['[']) :: pieces after
        else
          have : (d :: after).length < (c :: rest).length := by
            simp only [List.length_cons]
            omega
          .plain (c :: slashes) :: pieces (d :: after)
    else .plain [c] :: pieces rest
termination_by cs.length
decreasing_by all_goals simp_all

/-- The name of a style: blanks around it and the case do not matter. -/
def styleName (cs : List Char) : List Char :=
  (Text.trim Text.isSpace cs).map Char.toLower

/-- Takes the latest style with a name off the open ones. -/
def closeStyle? (name : List Char) : List (List Char) → Option (List (List Char))
  | [] => none
  | s :: rest => if s == name then some rest else (closeStyle? name rest).map (s :: ·)

/-- The characters of pieces without their tags; nothing if a tag closes what is not open. -/
def withoutTags? : List (List Char) → List Piece → Option (List Char)
  | _, [] => some []
  | opened, .plain cs :: rest => (withoutTags? opened rest).map (cs ++ ·)
  | opened, .tag ('/' :: name) :: rest =>
    match styleName name, opened with
    | [], [] => none
    | [], _ :: outer => withoutTags? outer rest
    | name, opened => (closeStyle? name opened).bind fun outer => withoutTags? outer rest
  | opened, .tag name :: rest => withoutTags? (styleName name :: opened) rest

/-- A text as it is shown, or nothing if its tags do not match. -/
def shown? (text : String) : Option String :=
  (withoutTags? [] (pieces text.toList)).map fun cs =>
    String.ofList (cs.filter (!Text.isControl ·))

end Markup

end Stepwise.Cli
