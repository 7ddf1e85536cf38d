import SourceBook.Proofs.FileSystem.Access
import SourceBook.Proofs.FileSystem.Beside

set_option autoImplicit false

namespace SourceBook

namespace Listing

theorem putAt_below {listing inner : Listing} {name : Name} {rest : Location}
    (found : listing.find? name = some (.directory inner)) (further : rest ≠ []) (node : Node) :
    listing.putAt node (name :: rest) = listing.put name (.directory (inner.putAt node rest)) := by
  cases rest with
  | nil => contradiction
  | cons next rest => simp only [putAt, found]

theorem put_self {listing : Listing} {name : Name} {node : Node}
    (found : listing.find? name = some node) : listing.put name node = listing := by
  induction listing with
  | nil => contradiction
  | leaf head item rest ih | directory head inner rest _ ih =>
    rw [find?] at found
    rw [put]
    split at found
    next same =>
      cases found
      rw [if_pos same, same]
      rfl
    next other => rw [if_neg other, ih found]

theorem putAt_self {listing : Listing} {node : Node} {location : Location}
    (nonempty : location ≠ []) (stands : (Node.directory listing).at? location = some node) :
    listing.putAt node location = listing := by
  induction location generalizing listing with
  | nil => contradiction
  | cons name rest ih =>
    obtain ⟨below, found, deeper⟩ := Node.at?_cons.1 stands
    cases rest with
    | nil =>
      cases deeper
      exact put_self found
    | cons next rest =>
      cases below with
      | leaf item => contradiction
      | directory inner =>
        have further : next :: rest ≠ [] := List.cons_ne_nil next rest
        rw [putAt_below found further, ih further deeper, put_self found]

end Listing

namespace Node

theorem at?_leaf_put {listing : Listing} {name : Name} (item : Leaf)
    (free : ∀ below, listing.find? name ≠ some (directory below)) (location : Location) :
    ((directory (listing.put name (leaf item))).at? location).map bare =
      if location = [name] then some (leaf item)
      else ((directory listing).at? location).map bare := by
  cases location with
  | nil => rfl
  | cons head rest =>
    simp only [at?, Listing.find?_put]
    by_cases same : name = head
    next =>
      subst same
      cases rest with
      | nil => simp [at?, bare]
      | cons next rest =>
        cases found : listing.find? name with
        | none => simp [at?]
        | some node =>
          cases node with
          | leaf other => simp [at?]
          | directory below => exact absurd found (free below)
    next => simp [same, Ne.symm same]

theorem at?_leaf_putAt {listing inner : Listing} {parent : Location} {name : Name} (item : Leaf)
    (stands : (directory listing).at? parent = some (directory inner))
    (free : ∀ below, inner.find? name ≠ some (directory below)) (location : Location) :
    ((directory (listing.putAt (leaf item) (parent ++ [name]))).at? location).map bare =
      if location = parent ++ [name] then some (leaf item)
      else ((directory listing).at? location).map bare := by
  induction parent generalizing listing location with
  | nil =>
    cases stands
    exact at?_leaf_put item free location
  | cons step parent ih =>
    obtain ⟨node, found, below⟩ := at?_cons.1 stands
    cases node with
    | leaf other => cases parent <;> cases below
    | directory deeper =>
      have further : parent ++ [name] ≠ [] := by simp
      rw [List.cons_append, Listing.putAt_below found further]
      cases location with
      | nil => rfl
      | cons head rest =>
        simp only [at?, Listing.find?_put]
        by_cases same : step = head
        next =>
          subst same
          simpa [found] using ih below rest
        next => simp [same, Ne.symm same]

theorem exists_parent_of_at?_leaf {top : Listing} {location : Location} {item : Leaf}
    (stands : (directory top).at? location = some (leaf item)) :
    ∃ parent name inner, location = parent ++ [name] ∧
      (directory top).at? parent = some (directory inner) ∧
      inner.find? name = some (leaf item) := by
  rcases List.eq_nil_or_concat location with rfl | ⟨parent, name, rfl⟩
  next => cases stands
  next =>
    rw [List.concat_eq_append, at?_append, Option.bind_eq_some_iff] at stands
    rcases stands with ⟨node, stands, last⟩
    cases node with
    | leaf other => cases last
    | directory inner =>
      obtain ⟨below, found, same⟩ := at?_cons.1 last
      cases same
      exact ⟨parent, name, inner, List.concat_eq_append, stands, found⟩

end Node

namespace FileSystem

-- What a path can be created as, it leads to; only slashes behind names are refused.
theorem descend_lookUp_of_create (top : Listing) (location : Location) (inner : Listing)
    (steps : List Step) :
    (∃ cause, descend top .create location inner steps = .refused cause) ∨
      descend top .lookUp location inner steps = descend top .create location inner steps := by
  induction steps generalizing location inner with
  | nil => exact .inr rfl
  | cons step rest ih =>
    cases step with
    | stay | inside => exact ih location inner
    | unnameable => exact .inl ⟨_, rfl⟩
    | up =>
      simp only [descend]
      cases directoryAt? top location.dropLast with
      | none => exact .inr rfl
      | some outer => exact ih location.dropLast outer
    | down name =>
      by_cases slash : rest = [.inside]
      next => exact .inl ⟨.isDirectory, by simp only [descend, slash, and_self, if_true]⟩
      next =>
        simp only [descend, slash, and_false, if_false]
        cases inner.find? name with
        | none => exact .inr rfl
        | some node =>
          cases node with
          | directory below => exact ih (location ++ [name]) below
          | leaf item => cases item <;> exact .inr rfl

theorem follow_lookUp_of_create {top inner : Listing} {budget : Nat} {location : Location}
    {steps : List Step} {place : Place}
    (reached : follow top .create budget location inner steps = .ok place) :
    follow top .lookUp budget location inner steps = .ok place := by
  induction budget using Nat.strongRecOn generalizing location inner steps with
  | ind budget ih =>
    have alike : descend top .lookUp location inner steps =
        descend top .create location inner steps := by
      rcases descend_lookUp_of_create top location inner steps with ⟨cause, refused⟩ | alike
      next =>
        rw [follow_of_refused refused] at reached
        contradiction
      next => exact alike
    rcases follow_cases reached with arrives | met
    next => exact follow_of_arrived (alike.trans arrives)
    next =>
      rcases met with ⟨left, parent, outer, path, rest, rfl, link, reached⟩
      rw [follow, alike, link]
      split at reached
      next absolute => exact (if_pos absolute).trans (ih left (Nat.lt_succ_self left) reached)
      next relative => exact (if_neg relative).trans (ih left (Nat.lt_succ_self left) reached)

theorem resolve_lookUp_of_create {files : FileSystem} {path : Bytes} {place : Place}
    (reached : files.resolve .create path = .ok place) :
    files.resolve .lookUp path = .ok place := by
  obtain ⟨noZero, nonempty, short, start, outer, starts, followed⟩ := resolve_eq_ok_iff.1 reached
  refine resolve_eq_ok_iff.2 ⟨noZero, nonempty, short, start, outer, starts, ?_⟩
  exact follow_lookUp_of_create followed

theorem put_self {files : FileSystem} {location : Location} {item : Leaf}
    (stands : files.at? location = some (.leaf item)) : files.put location item = files := by
  obtain ⟨parent, name, -, rfl, -⟩ := Node.exists_parent_of_at?_leaf stands
  have unchanged := Listing.putAt_self (by simp) stands
  cases files
  simp only [put, FileSystem.mk.injEq, and_true]
  exact unchanged

section Put

variable {files : FileSystem} {parent : Location} {name : Name} {inner : Listing}
  (stands : files.at? parent = some (.directory inner))
  (free : ∀ node, inner.find? name = some node → ∃ data, node = .leaf (.file data)) (data : Bytes)

include stands free

theorem bare_put (location : Location) :
    ((files.put (parent ++ [name]) (.file data)).at? location).map Node.bare =
      if location = parent ++ [name] then some (.leaf (.file data))
      else (files.at? location).map Node.bare := by
  apply Node.at?_leaf_putAt _ stands
  intro below found
  obtain ⟨old, file⟩ := free _ found
  cases file

theorem at?_put_self :
    (files.put (parent ++ [name]) (.file data)).at? (parent ++ [name]) =
      some (.leaf (.file data)) := by
  have bare := bare_put stands free data (parent ++ [name])
  rw [if_pos rfl, Option.map_eq_some_iff] at bare
  obtain ⟨node, standsNow, alike⟩ := bare
  rw [standsNow, Node.bare_eq_leaf_iff.1 alike]

theorem sameBut_put :
    files.SameBut (parent ++ [name]) (files.put (parent ++ [name]) (.file data)) := by
  refine ⟨rfl, ?bare, ?first, ?second⟩
  case bare =>
    intro location elsewhere
    have bare := bare_put stands free data location
    rw [if_neg elsewhere] at bare
    exact bare.symm
  case first =>
    intro node found
    exact free node ((at?_down stands name).symm.trans found)
  case second =>
    intro node found
    exact ⟨data, Option.some.inj (found.symm.trans (at?_put_self stands free data))⟩

end Put

theorem exists_parent_of_file? {files : FileSystem} {place : Place} {target : Location}
    (stands : place.Stands files.top) (leads : place.file? = some target) :
    ∃ parent name inner, target = parent ++ [name] ∧
      files.at? parent = some (.directory inner) ∧
      ∀ node, inner.find? name = some node → ∃ data, node = .leaf (.file data) := by
  cases place with
  | absent parent name =>
    cases leads
    obtain ⟨inner, standsParent, missing⟩ := stands
    refine ⟨parent, name, inner, rfl, standsParent, ?_⟩
    intro node found
    cases missing.symm.trans found
  | found what =>
    cases what with
    | directory location inner => contradiction
    | file location old =>
      cases leads
      obtain ⟨parent, name, inner, rfl, standsParent, last⟩ :=
        Node.exists_parent_of_at?_leaf stands
      refine ⟨parent, name, inner, rfl, standsParent, ?_⟩
      intro node found
      exact ⟨old, Option.some.inj (found.symm.trans last)⟩

theorem write_eq_ok_iff {files written : FileSystem} {path data : Bytes} :
    files.write path data = .ok written ↔
      ∃ place target, files.resolve .create path = .ok place ∧ place.file? = some target ∧
        files.put target (.file data) = written := by
  rw [write]
  split
  next location old reached => simp [reached, Place.file?]
  next location inner reached => simp [reached, Place.file?]
  next parent name reached => simp [reached, Place.file?]
  next cause refused => simp [refused]

structure Wrote (files : FileSystem) (path data : Bytes) (written : FileSystem)
    (target : Location) : Prop where
  sameBut : files.SameBut target written
  file : written.at? target = some (.leaf (.file data))
  creates : ∃ place, files.resolve .create path = .ok place ∧ place.file? = some target
  leads : written.resolve .create path = .ok (.found (.file target data))

section Write

variable {files written : FileSystem} {path data : Bytes}

theorem exists_wrote (wrote : files.write path data = .ok written) :
    ∃ target, files.Wrote path data written target := by
  obtain ⟨place, target, reached, leads, rfl⟩ := write_eq_ok_iff.1 wrote
  obtain ⟨parent, name, inner, rfl, stands, free⟩ :=
    exists_parent_of_file? (resolve_stands reached) leads
  have same := sameBut_put stands free data
  have file := at?_put_self stands free data
  exact ⟨_, same, file, ⟨place, reached, leads⟩, resolve_target_of_sameBut same reached leads file⟩

theorem Wrote.lookUp {target : Location} (wrote : files.Wrote path data written target) :
    written.lookUp path = .ok (.file target data) :=
  lookUp_eq_ok_iff.2 (resolve_lookUp_of_create wrote.leads)

theorem Wrote.target_of_lookUp {target location : Location} {old : Bytes}
    (wrote : files.Wrote path data written target)
    (found : files.lookUp path = .ok (.file location old)) : location = target := by
  obtain ⟨place, reached, leads⟩ := wrote.creates
  cases (lookUp_eq_ok_iff.1 found).symm.trans (resolve_lookUp_of_create reached)
  exact Option.some.inj leads

theorem lookUp_of_write (wrote : files.write path data = .ok written) :
    ∃ location, written.lookUp path = .ok (.file location data) := by
  obtain ⟨target, wrote⟩ := exists_wrote wrote
  exact ⟨target, wrote.lookUp⟩

theorem write_again (wrote : files.write path data = .ok written) :
    written.write path data = .ok written := by
  obtain ⟨target, wrote⟩ := exists_wrote wrote
  exact write_eq_ok_iff.2 ⟨_, target, wrote.leads, rfl, put_self wrote.file⟩

end Write

theorem holdsText_of_write {files written : FileSystem} {path : Bytes} {text : String}
    (wrote : files.write path (Utf8.encode text) = .ok written) : written.HoldsText path text :=
  lookUp_of_write wrote

end FileSystem

end SourceBook
