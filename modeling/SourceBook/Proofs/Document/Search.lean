import Mathlib.Order.Bounds.Basic
import SourceBook.Document.Scanning
import SourceBook.Proofs.Document.Continuation
import SourceBook.Proofs.Text.Places

set_option autoImplicit false

namespace SourceBook

namespace Document

def EndsAt (body : String) (place : Nat) : Prop :=
  ∃ before after, Utf8.encode body =
      before ++ Utf8.encode Section.closer ++ Utf8.encode after ∧
    before.length = place ∧ (after = "" ∨ Opens after)

theorem closer_eq : Section.closer = "\n" ++ "```\n\n" := by decide

theorem closer_ne_empty : Section.closer ≠ "" := by decide

theorem endsAt_iff {body : String} {place : Nat} :
    EndsAt body place ↔ ∃ after, Utf8.behind? body place = some (Section.closer ++ after) ∧
      (after = "" ∨ Opens after) := by
  simp only [Utf8.behind?_eq_some_iff]
  constructor
  next =>
    rintro ⟨before, after, whole, rfl, ends⟩
    obtain ⟨front, back, rfl, rfl, same⟩ := Utf8.exists_texts_of_encode closer_ne_empty whole
    rw [Utf8.encode_injective same] at ends
    exact ⟨back, ⟨front, String.append_assoc, (Utf8.length_encode front).symm⟩, ends⟩
  next =>
    rintro ⟨after, ⟨front, rfl, rfl⟩, ends⟩
    refine ⟨Utf8.encode front, after, ?_, Utf8.length_encode front, ends⟩
    rw [Utf8.encode_append, Utf8.encode_append, List.append_assoc]

theorem endsAt_add {front rest : String} {place : Nat} :
    EndsAt (front ++ rest) (front.utf8ByteSize + place) ↔ EndsAt rest place := by
  rw [endsAt_iff, endsAt_iff, Utf8.behind?_add]

theorem exists_fence_of_endsAt {body : String} {place : Nat} (ends : EndsAt body place) :
    ∃ before after, body = before ++ Section.closer ++ after ∧ before.utf8ByteSize = place := by
  obtain ⟨after, behind, -⟩ := endsAt_iff.1 ends
  obtain ⟨before, whole, size⟩ := Utf8.behind?_eq_some_iff.1 behind
  exact ⟨before, after, by rw [whole, String.append_assoc], size⟩

theorem endsAt_fence_iff {before after : String} :
    EndsAt (before ++ Section.closer ++ after) before.utf8ByteSize ↔ after = "" ∨ Opens after := by
  have behind : Utf8.behind? (before ++ Section.closer ++ after) before.utf8ByteSize =
      some (Section.closer ++ after) :=
    Utf8.behind?_eq_some_iff.2 ⟨before, String.append_assoc, rfl⟩
  rw [endsAt_iff, behind]
  constructor
  next =>
    rintro ⟨other, same, ends⟩
    rwa [(String.append_right_inj _).1 (Option.some.inj same)]
  next => exact fun ends => ⟨after, rfl, ends⟩

inductive Attempt.Tells (body : String) (searchFrom : Nat) : Attempt → Prop where
  | unclosed (never : ∀ place, searchFrom ≤ place → ¬EndsAt body place) :
    Tells body searchFrom .unclosed
  | closed {place : Nat}
      (least : IsLeast {place | searchFrom ≤ place ∧ EndsAt body place} place) :
    Tells body searchFrom (.closed place)
  | rejected {next : Nat} (further : searchFrom < next)
      (boundary : Utf8.isBoundary (Utf8.encode body) next)
      (passed : ∀ place, searchFrom ≤ place → place < next → ¬EndsAt body place) :
    Tells body searchFrom (.rejected next)

structure FirstFence (body : String) (searchFrom : Nat) (before after : String) : Prop where
  whole : body = before ++ Section.closer ++ after
  onward : searchFrom ≤ before.utf8ByteSize
  first : ∀ place, searchFrom ≤ place → place < before.utf8ByteSize → ¬EndsAt body place

theorem FirstFence.endsAt_iff {body before after : String} {searchFrom : Nat}
    (fence : FirstFence body searchFrom before after) :
    EndsAt body before.utf8ByteSize ↔ after = "" ∨ (opener? after.toList).isSome := by
  rw [fence.whole, endsAt_fence_iff, opens_iff, Option.isSome_iff_exists, Prod.exists]

theorem attempt?_cases {body : String} {searchFrom : Nat}
    (boundary : Utf8.isBoundary (Utf8.encode body) searchFrom) :
    (attempt? body searchFrom = some .unclosed ∧
      ∀ place, searchFrom ≤ place → ¬EndsAt body place) ∨
    ∃ before after, FirstFence body searchFrom before after ∧
      attempt? body searchFrom =
        if after = "" ∨ (opener? after.toList).isSome then some (.closed before.utf8ByteSize)
        else some (.rejected (before.utf8ByteSize + 1)) := by
  obtain ⟨front, rest, rfl, rfl⟩ := Utf8.isBoundary_iff.1 boundary
  have start : Utf8.behind? (front ++ rest) front.utf8ByteSize = some rest :=
    Utf8.behind?_eq_some_iff.2 ⟨front, rfl, rfl⟩
  have spec := Utf8.find?_spec closer_ne_empty rest
  rw [attempt?, start]
  dsimp only
  cases found : Utf8.find? Section.closer rest with
  | none =>
    rw [found] at spec
    refine .inl ⟨rfl, fun place onward ends => ?_⟩
    obtain ⟨more, rfl⟩ := Nat.exists_eq_add_of_le onward
    obtain ⟨before, after, whole, -⟩ := exists_fence_of_endsAt (endsAt_add.1 ends)
    exact spec before after whole
  | some ahead =>
    rw [found] at spec
    obtain ⟨⟨before, after, rfl, rfl⟩, first⟩ := spec
    have whole : front ++ (before ++ Section.closer ++ after) =
        front ++ before ++ Section.closer ++ after := by
      simp only [String.append_assoc]
    have size : before.utf8ByteSize + front.utf8ByteSize = (front ++ before).utf8ByteSize := by
      rw [String.utf8ByteSize_append, Nat.add_comm]
    have behind : Utf8.behind? (front ++ (before ++ Section.closer ++ after))
        ((front ++ before).utf8ByteSize + Section.closer.utf8ByteSize) = some after :=
      Utf8.behind?_eq_some_iff.2 ⟨_, whole, String.utf8ByteSize_append⟩
    refine .inr ⟨front ++ before, after, ⟨whole, ?_, ?_⟩, ?_⟩
    next => exact size ▸ Nat.le_add_left _ _
    next =>
      intro place onward less ends
      obtain ⟨more, rfl⟩ := Nat.exists_eq_add_of_le onward
      have least : before.utf8ByteSize ≤ more := first (exists_fence_of_endsAt (endsAt_add.1 ends))
      omega
    next =>
      dsimp only
      rw [size, behind]

theorem exists_tells {body : String} {searchFrom : Nat}
    (boundary : Utf8.isBoundary (Utf8.encode body) searchFrom) :
    ∃ attempt, attempt? body searchFrom = some attempt ∧ attempt.Tells body searchFrom := by
  rcases attempt?_cases boundary with ⟨tried, never⟩ | ⟨before, after, fence, tried⟩
  next => exact ⟨_, tried, .unclosed never⟩
  next =>
    rw [tried]
    split
    next ends =>
      refine ⟨_, rfl, .closed ⟨⟨fence.onward, fence.endsAt_iff.2 ends⟩, ?_⟩⟩
      rintro place ⟨onward, endsThere⟩
      exact Nat.le_of_not_lt fun less => fence.first place onward less endsThere
    next goesOn =>
      refine ⟨_, rfl, .rejected (Nat.lt_succ_of_le fence.onward) ?_ ?_⟩
      next =>
        -- One byte further the line break of the fence is passed, and no more than that.
        refine Utf8.isBoundary_iff.2 ⟨before ++ "\n", "```\n\n" ++ after, ?_, ?_⟩
        next => rw [fence.whole, closer_eq, String.append_assoc, String.append_assoc,
          String.append_assoc]
        next => exact String.utf8ByteSize_append
      next =>
        intro place onward less ends
        rcases Nat.lt_succ_iff_lt_or_eq.1 less with lesser | rfl
        next => exact fence.first place onward lesser ends
        next => exact goesOn (fence.endsAt_iff.1 ends)

def Finds (body : String) (searchFrom : Nat) : Option Nat → Prop
  | some place => IsLeast {place | searchFrom ≤ place ∧ EndsAt body place} place
  | none => ∀ place, searchFrom ≤ place → ¬EndsAt body place

theorem Finds.further {body : String} {searchFrom next : Nat} {result : Option Nat}
    (finds : Finds body next result) (further : searchFrom < next)
    (passed : ∀ place, searchFrom ≤ place → place < next → ¬EndsAt body place) :
    Finds body searchFrom result := by
  have beyond {place : Nat} (onward : searchFrom ≤ place) (ends : EndsAt body place) :
      next ≤ place :=
    Nat.le_of_not_lt fun less => passed place onward less ends
  cases result with
  | none => exact fun place onward ends => finds place (beyond onward ends) ends
  | some place =>
    obtain ⟨⟨ahead, ends⟩, least⟩ := finds
    refine ⟨⟨by omega, ends⟩, ?_⟩
    rintro other ⟨onward, endsThere⟩
    exact least ⟨beyond onward endsThere, endsThere⟩

theorem tells_of_attempt? {body : String} {searchFrom : Nat} {attempt : Attempt}
    (boundary : Utf8.isBoundary (Utf8.encode body) searchFrom)
    (tried : attempt? body searchFrom = some attempt) : attempt.Tells body searchFrom := by
  obtain ⟨other, same, tells⟩ := exists_tells boundary
  rw [tried, Option.some.injEq] at same
  rwa [same]

theorem exists_finds {body : String} {searchFrom : Nat}
    (boundary : Utf8.isBoundary (Utf8.encode body) searchFrom) :
    ∃ result, search? body searchFrom = some result ∧ Finds body searchFrom result := by
  fun_induction search? body searchFrom with
  | case1 searchFrom slipped =>
    obtain ⟨attempt, tried, -⟩ := exists_tells boundary
    rw [slipped] at tried
    contradiction
  | case2 searchFrom unclosed =>
    cases tells_of_attempt? boundary unclosed with
    | unclosed never => exact ⟨none, rfl, never⟩
  | case3 searchFrom place closed =>
    cases tells_of_attempt? boundary closed with
    | closed least => exact ⟨some place, rfl, least⟩
  | case4 searchFrom next rejected _ ih =>
    cases tells_of_attempt? boundary rejected with
    | rejected further nextBoundary passed =>
      obtain ⟨result, found, finds⟩ := ih nextBoundary
      exact ⟨result, found, finds.further further passed⟩

theorem splitBlock?_isLeast {body : String} {contents after : List Char}
    (closed : splitBlock? [] body.toList = some (contents, after)) :
    IsLeast {place | EndsAt body place} (String.ofList contents).utf8ByteSize := by
  obtain ⟨whole, resumes, seamless⟩ := splitBlock?_eq_some_iff_not_holdsSeam.1 closed
  have split : body = String.ofList contents ++ Section.closer ++ String.ofList after := by
    simp [← String.toList_inj, whole]
  constructor
  next =>
    change EndsAt body _
    rw [split, endsAt_fence_iff, ← resumes_toList, String.toList_ofList]
    exact resumes
  next =>
    intro place ends
    obtain ⟨later, behind, endsThere⟩ := endsAt_iff.1 ends
    obtain ⟨before, wholeThere, rfl⟩ := Utf8.behind?_eq_some_iff.1 behind
    have same : contents ++ Section.closer.toList ++ after =
        before.toList ++ Section.closer.toList ++ later.toList := by
      rw [← whole, wholeThere]
      simp
    obtain ⟨cut, longer⟩ := prefix_of_blockEnd? seamless (resumes_toList.2 endsThere) same
    have size : before = String.ofList contents ++ String.ofList cut := by
      simp [← String.toList_inj, longer]
    rw [size, String.utf8ByteSize_append]
    exact Nat.le_add_right _ _

theorem splitBlock?_eq_none_iff_endsAt {body : String} :
    splitBlock? [] body.toList = none ↔ ∀ place, ¬EndsAt body place := by
  rw [← unclosed_iff]
  constructor
  next =>
    intro unclosed place ends
    obtain ⟨before, after, rfl, rfl⟩ := exists_fence_of_endsAt ends
    obtain ⟨nonempty, noOpener⟩ := unclosed before after rfl
    exact (endsAt_fence_iff.1 ends).elim nonempty noOpener
  next =>
    rintro never before after rfl
    exact not_or.1 fun ends => never _ (endsAt_fence_iff.2 ends)

def contentLength? (body : String) : Option Nat :=
  (splitBlock? [] body.toList).map fun block => (String.ofList block.1).utf8ByteSize

theorem contentLength?_eq_some_iff {body : String} {place : Nat} :
    contentLength? body = some place ↔ IsLeast {place | EndsAt body place} place := by
  rw [contentLength?]
  cases closed : splitBlock? [] body.toList with
  | none =>
    refine iff_of_false nofun fun least => ?_
    exact splitBlock?_eq_none_iff_endsAt.1 closed place least.1
  | some block =>
    have least := splitBlock?_isLeast closed
    rw [Option.map_some, Option.some.injEq]
    constructor
    next => exact fun same => same ▸ least
    next => exact least.unique

theorem contentLength?_eq_none_iff {body : String} :
    contentLength? body = none ↔ ∀ place, ¬EndsAt body place := by
  rw [contentLength?, Option.map_eq_none_iff, splitBlock?_eq_none_iff_endsAt]

theorem search?_eq (body : String) : search? body 0 = some (contentLength? body) := by
  have boundary : Utf8.isBoundary (Utf8.encode body) 0 := Utf8.isBoundary_zero body.toList
  obtain ⟨result, found, finds⟩ := exists_finds boundary
  rw [found]
  cases result with
  | none => rw [contentLength?_eq_none_iff.2 fun place => finds place (Nat.zero_le place)]
  | some place =>
    have least : IsLeast {place | EndsAt body place} place := by
      simpa [Finds, Nat.zero_le] using finds
    rw [contentLength?_eq_some_iff.2 least]

theorem search_isLeast (body : String) :
    (∀ place, search? body 0 = some (some place) ↔ IsLeast {place | EndsAt body place} place) ∧
    (search? body 0 = some none ↔ ∀ place, ¬EndsAt body place) ∧
    search? body 0 = some ((splitBlock? [] body.toList).map fun block =>
      (String.ofList block.1).utf8ByteSize) ∧
    ∀ text path rest : String, opener? text.toList = some (path.toList, rest.toList) ↔
      '\n' ∉ path.toList ∧ text = "## " ++ path ++ "\n\n```go\n" ++ rest := by
  refine ⟨fun place => ?_, ?_, search?_eq body, fun text path rest => ?_⟩
  next => rw [search?_eq, Option.some.injEq, contentLength?_eq_some_iff]
  next => rw [search?_eq, Option.some.injEq, contentLength?_eq_none_iff]
  next =>
    rw [opener?_eq_some_iff, ← String.toList_inj]
    simp only [String.toList_append]
    rfl

-- The second fence starts with the last byte of the first one, which ends no block.
example : search? "a\n```\n\n```\n\n" 0 = some (some 6) := by
  rw [search?_eq]
  decide

end Document

end SourceBook
