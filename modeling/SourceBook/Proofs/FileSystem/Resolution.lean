import SourceBook.FileSystem.Access

set_option autoImplicit false

namespace SourceBook

def Found.Stands (top : Listing) : Found → Prop
  | .file location data => (Node.directory top).at? location = some (.leaf (.file data))
  | .directory location inner => (Node.directory top).at? location = some (.directory inner)

def Place.Stands (top : Listing) : Place → Prop
  | .found what => what.Stands top
  | .absent parent name =>
    ∃ inner, (Node.directory top).at? parent = some (.directory inner) ∧ inner.find? name = none

def Stretch.Stands (top : Listing) : Stretch → Prop
  | .arrived place => place.Stands top
  | .link location inner _ _ => (Node.directory top).at? location = some (.directory inner)
  | .refused _ => True

theorem Node.at?_cons {listing : Listing} {name : Name} {rest : Location} {node : Node} :
    (Node.directory listing).at? (name :: rest) = some node ↔
      ∃ below, listing.find? name = some below ∧ below.at? rest = some node := by
  simp only [at?]
  cases listing.find? name <;> simp

namespace FileSystem

theorem at?_of_directoryAt? {top inner : Listing} {location : Location}
    (found : directoryAt? top location = some inner) :
    (Node.directory top).at? location = some (.directory inner) := by
  simp only [directoryAt?] at found
  split at found
  next below stands => rw [stands, Option.some.inj found]
  next => contradiction

theorem directoryAt?_eq_some_iff {top inner : Listing} {location : Location} :
    directoryAt? top location = some inner ↔
      (Node.directory top).at? location = some (.directory inner) := by
  refine ⟨at?_of_directoryAt?, ?_⟩
  intro stands
  rw [directoryAt?, stands]

theorem at?_down {top inner : Listing} {location : Location}
    (stands : (Node.directory top).at? location = some (.directory inner)) (name : Name) :
    (Node.directory top).at? (location ++ [name]) = inner.find? name := by
  rw [Node.at?_append, stands, Option.bind_some, Node.at?]
  cases inner.find? name <;> rfl

theorem descend_stands {top inner : Listing} {location : Location}
    (stands : (Node.directory top).at? location = some (.directory inner)) (purpose : Purpose)
    (steps : List Step) : (descend top purpose location inner steps).Stands top := by
  induction steps generalizing location inner with
  | nil => exact stands
  | cons step rest ih =>
    cases step with
    | stay | inside => exact ih stands
    | unnameable => trivial
    | up =>
      simp only [descend]
      split
      next outer found => exact ih (at?_of_directoryAt? found)
      next => trivial
    | down name =>
      have below := at?_down stands name
      simp only [descend]
      split
      next => trivial
      next =>
        split
        next deeper found => exact ih (below.trans found)
        next => exact stands
        next data found =>
          split
          next => exact below.trans found
          next => trivial
        next missing =>
          split
          next => exact ⟨inner, stands, missing⟩
          next => trivial

theorem follow_of_arrived {top inner : Listing} {purpose : Purpose} {budget : Nat}
    {location : Location} {steps : List Step} {place : Place}
    (arrives : descend top purpose location inner steps = .arrived place) :
    follow top purpose budget location inner steps = .ok place := by
  cases budget <;> rw [follow, arrives]

theorem follow_of_refused {top inner : Listing} {purpose : Purpose} {budget : Nat}
    {location : Location} {steps : List Step} {cause : AccessError}
    (refused : descend top purpose location inner steps = .refused cause) :
    follow top purpose budget location inner steps = .error cause := by
  cases budget <;> rw [follow, refused]

-- Either no link is met, or one is and what is left of the budget is enough for the rest.
theorem follow_cases {top inner : Listing} {purpose : Purpose} {budget : Nat}
    {location : Location} {steps : List Step} {place : Place}
    (reached : follow top purpose budget location inner steps = .ok place) :
    descend top purpose location inner steps = .arrived place ∨
      ∃ left parent outer target rest, budget = left + 1 ∧
        descend top purpose location inner steps = .link parent outer target rest ∧
        if Path.isAbsolute target then
          follow top purpose left [] top (Path.steps target ++ rest) = .ok place
        else follow top purpose left parent outer (Path.steps target ++ rest) = .ok place := by
  cases leads : descend top purpose location inner steps with
  | arrived there =>
    rw [follow_of_arrived leads] at reached
    cases reached
    exact .inl rfl
  | refused cause =>
    rw [follow_of_refused leads] at reached
    contradiction
  | link parent outer target rest =>
    cases budget with
    | zero =>
      rw [follow, leads] at reached
      contradiction
    | succ left =>
      rw [follow, leads] at reached
      refine .inr ⟨left, parent, outer, target, rest, rfl, rfl, ?_⟩
      dsimp only at reached
      split at reached
      next absolute => rwa [if_pos absolute]
      next relative => rwa [if_neg relative]

theorem follow_of_le {top inner : Listing} {purpose : Purpose} {budget more : Nat}
    {location : Location} {steps : List Step} (enough : budget ≤ more)
    (bounded : follow top purpose budget location inner steps ≠ .error .tooManyLinks) :
    follow top purpose more location inner steps =
      follow top purpose budget location inner steps := by
  induction budget generalizing more location inner steps with
  | zero =>
    cases leads : descend top purpose location inner steps with
    | arrived place => rw [follow_of_arrived leads, follow_of_arrived leads]
    | refused cause => rw [follow_of_refused leads, follow_of_refused leads]
    | link parent outer target rest =>
      rw [follow, leads] at bounded
      exact absurd rfl bounded
  | succ budget ih =>
    cases leads : descend top purpose location inner steps with
    | arrived place => rw [follow_of_arrived leads, follow_of_arrived leads]
    | refused cause => rw [follow_of_refused leads, follow_of_refused leads]
    | link parent outer target rest =>
      cases more with
      | zero => contradiction
      | succ more =>
        rw [follow, leads] at bounded
        rw [follow, follow, leads]
        dsimp only at bounded ⊢
        split at bounded
        next absolute =>
          rw [if_pos absolute, if_pos absolute]
          exact ih (Nat.le_of_succ_le_succ enough) bounded
        next relative =>
          rw [if_neg relative, if_neg relative]
          exact ih (Nat.le_of_succ_le_succ enough) bounded

theorem follow_stands {top inner : Listing} {location : Location} {purpose : Purpose}
    {budget : Nat} {steps : List Step} {place : Place}
    (stands : (Node.directory top).at? location = some (.directory inner))
    (reached : follow top purpose budget location inner steps = .ok place) :
    place.Stands top := by
  induction budget using Nat.strongRecOn generalizing location inner steps with
  | ind budget ih =>
    have stretch := descend_stands stands purpose steps
    rcases follow_cases reached with arrives | met
    next => rwa [arrives] at stretch
    next =>
      rcases met with ⟨left, parent, outer, target, rest, rfl, leads, reached⟩
      rw [leads] at stretch
      split at reached
      next => exact ih left (Nat.lt_succ_self left) rfl reached
      next => exact ih left (Nat.lt_succ_self left) stretch reached

theorem origin?_stands {files : FileSystem} {path : Bytes} {location : Location} {inner : Listing}
    (starts : files.origin? path = some (location, inner)) :
    (Node.directory files.top).at? location = some (.directory inner) := by
  rw [origin?] at starts
  split at starts
  next =>
    obtain ⟨rfl, rfl⟩ := Prod.mk.inj (Option.some.inj starts)
    rfl
  next =>
    obtain ⟨below, found, same⟩ := Option.map_eq_some_iff.1 starts
    obtain ⟨rfl, rfl⟩ := Prod.mk.inj same
    exact at?_of_directoryAt? found

theorem resolve_eq_ok_iff {files : FileSystem} {purpose : Purpose} {path : Bytes}
    {place : Place} :
    files.resolve purpose path = .ok place ↔
      0 ∉ path ∧ path ≠ [] ∧ path.length ≤ longestPath ∧
        ∃ start outer, files.origin? path = some (start, outer) ∧
          follow files.top purpose mostLinks start outer (Path.steps path) = .ok place := by
  rw [resolve]
  by_cases zero : 0 ∈ path
  next => simp [zero]
  next =>
    by_cases empty : path = []
    next => simp [empty]
    next =>
      by_cases long : longestPath < path.length
      next => simp [zero, empty, long, Nat.not_le.2 long]
      next =>
        rw [if_neg zero, if_neg empty, if_neg long]
        cases files.origin? path with
        | none => simp
        | some origin =>
          rcases origin with ⟨start, outer⟩
          simp [zero, empty, Nat.le_of_not_lt long, and_assoc]

theorem resolve_stands {files : FileSystem} {purpose : Purpose} {path : Bytes} {place : Place}
    (reached : files.resolve purpose path = .ok place) : place.Stands files.top := by
  obtain ⟨_, _, _, start, outer, starts, followed⟩ := resolve_eq_ok_iff.1 reached
  exact follow_stands (origin?_stands starts) followed

theorem lookUp_eq_ok_iff {files : FileSystem} {path : Bytes} {what : Found} :
    files.lookUp path = .ok what ↔ files.resolve .lookUp path = .ok (.found what) := by
  rw [lookUp]
  split
  next other reached => simp [reached]
  next missing reached => simp [reached]
  next cause refused => simp [refused]

theorem lookUp_stands {files : FileSystem} {path : Bytes} {what : Found}
    (found : files.lookUp path = .ok what) : what.Stands files.top :=
  resolve_stands (lookUp_eq_ok_iff.1 found)

end FileSystem

end SourceBook
