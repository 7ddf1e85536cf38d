set_option autoImplicit false

namespace SourceBook

variable {α : Type} [DecidableEq α]

def dropStart? : List α → List α → Option (List α)
  | [], whole => some whole
  | _ :: _, [] => none
  | first :: start, head :: whole => if first = head then dropStart? start whole else none

theorem dropStart?_eq_some_iff {start whole rest : List α} :
    dropStart? start whole = some rest ↔ whole = start ++ rest := by
  induction start generalizing whole with
  | nil => simp [dropStart?, eq_comm]
  | cons first start ih =>
    cases whole with
    | nil => simp [dropStart?]
    | cons head whole =>
      by_cases same : first = head
      next => simp [dropStart?, same, ih]
      next => simp [dropStart?, same, Ne.symm same]

@[simp] theorem dropStart?_append (start rest : List α) :
    dropStart? start (start ++ rest) = some rest :=
  dropStart?_eq_some_iff.2 rfl

def splitAtEach (separator : α) : List α → List (List α)
  | [] => [[]]
  | head :: rest =>
    if head = separator then [] :: splitAtEach separator rest
    else
      match splitAtEach separator rest with
      | [] => [[head]]
      | part :: parts => (head :: part) :: parts

theorem splitAtEach_ne_nil (separator : α) (whole : List α) : splitAtEach separator whole ≠ [] := by
  cases whole with
  | nil => simp [splitAtEach]
  | cons head rest =>
    simp only [splitAtEach]
    split
    · simp
    · split <;> simp

theorem splitAtEach_of_not_mem {separator : α} {whole : List α} (absent : separator ∉ whole) :
    splitAtEach separator whole = [whole] := by
  induction whole with
  | nil => rfl
  | cons head rest ih =>
    simp only [List.mem_cons, not_or] at absent
    simp [splitAtEach, Ne.symm absent.1, ih absent.2]

theorem splitAtEach_append_cons (separator : α) (front rest : List α) :
    splitAtEach separator (front ++ separator :: rest) =
      splitAtEach separator front ++ splitAtEach separator rest := by
  induction front with
  | nil => simp [splitAtEach]
  | cons head front ih =>
    simp only [List.cons_append, splitAtEach, ih]
    split
    next => rfl
    next =>
      cases parts : splitAtEach separator front with
      | nil => exact absurd parts (splitAtEach_ne_nil separator front)
      | cons part others => rfl

theorem splitAtEach_append {separator : α} {part : List α} (absent : separator ∉ part)
    (rest : List α) :
    splitAtEach separator (part ++ separator :: rest) = part :: splitAtEach separator rest := by
  rw [splitAtEach_append_cons, splitAtEach_of_not_mem absent]
  rfl

def joinWith (separator : α) : List (List α) → List α
  | [] => []
  | [part] => part
  | part :: next :: parts => part ++ separator :: joinWith separator (next :: parts)

theorem splitAtEach_joinWith {separator : α} {parts : List (List α)} (nonempty : parts ≠ [])
    (absent : ∀ part ∈ parts, separator ∉ part) :
    splitAtEach separator (joinWith separator parts) = parts := by
  induction parts with
  | nil => exact absurd rfl nonempty
  | cons part parts ih =>
    cases parts with
    | nil => exact splitAtEach_of_not_mem (absent part (by simp))
    | cons next parts =>
      rw [joinWith, splitAtEach_append (absent part (by simp)),
        ih (by simp) fun other member => absent other (List.mem_cons_of_mem _ member)]

end SourceBook
