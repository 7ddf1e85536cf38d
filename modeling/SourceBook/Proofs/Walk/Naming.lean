import Mathlib.Data.List.Forall2
import SourceBook.Proofs.Text.Suffix
import SourceBook.Proofs.Walk.Entries

set_option autoImplicit false

namespace SourceBook

theorem hasExtension_iff_encode_suffix {name : Bytes} {extension : String}
    (plain : Utf8.replacement ∉ extension.toList) :
    hasExtension name extension = true ↔ Utf8.encode extension <:+ name := by
  rw [hasExtension_iff, Utf8.suffix_lossy_iff plain]

-- Two bytes of a longer character, cut off by the first byte of the extension.
theorem hasExtension_iff_encode_suffix_broken :
    Utf8.replacement ∉ "é.go".toList ∧
      hasExtension ([0xE2, 0x82] ++ Utf8.encode "é.go") "é.go" = true := by
  have plain : Utf8.replacement ∉ "é.go".toList := by decide
  exact ⟨plain, (hasExtension_iff_encode_suffix plain).2 (List.suffix_append _ _)⟩

def Listing.followed : Listing → List Location
  | nil => []
  | leaf _ (.file _) rest => rest.followed
  | leaf name (.link _) rest => [name] :: rest.followed
  | directory name inner rest => [name] :: (inner.followed.map (name :: ·) ++ rest.followed)

theorem Listing.mem_followed {listing : Listing} {name : Name} {below : Location}
    {found node : Node} (isFound : listing.find? name = some found)
    (stands : found.at? below = some node) (noFile : ∀ data, node ≠ .leaf (.file data)) :
    name :: below ∈ listing.followed := by
  induction listing generalizing name below found with
  | nil => contradiction
  | leaf head item rest ih =>
    rw [find?] at isFound
    split at isFound
    next same =>
      cases isFound
      cases below with
      | cons => contradiction
      | nil =>
        cases item with
        | file data => exact absurd (Option.some.inj stands).symm (noFile data)
        | link target => simp [followed, same]
    next =>
      have later := ih isFound stands
      cases item with
      | file data => exact later
      | link target => exact List.mem_cons_of_mem _ later
  | directory head inner rest innerIh ih =>
    rw [find?] at isFound
    split at isFound
    next same =>
      cases isFound
      cases below with
      | nil => simp [followed, same]
      | cons next below =>
        obtain ⟨deeper, inside, stands⟩ := Node.at?_cons.1 stands
        simp [followed, same, innerIh inside stands]
    next => simp [followed, ih isFound stands]

structure Entry.Named (root : Bytes) (names : Location) (entry : Entry) : Prop where
  relativePath : entry.relativePath = joinWith slash (names.map Name.bytes)
  path : entry.path =
    root ++ (if root.getLast? = some slash then [] else [slash]) ++ entry.relativePath
  belowRoot : dropStart? (Path.components root) (Path.components entry.path) =
    some (names.map Name.bytes)

namespace FileSystem

def PastLimit (files : FileSystem) (root : Bytes) (names : Location) : Prop :=
  longestPath < (Path.joinAll root names).length ∨
    files.lookUp (Path.joinAll root names) = .error .tooManyLinks

instance (files : FileSystem) (root : Bytes) (names : Location) :
    Decidable (files.PastLimit root names) :=
  inferInstanceAs (Decidable (_ ∨ _))

structure SameRoot (files : FileSystem) (first second : Bytes) (base : Location)
    (inner : Listing) : Prop where
  resolved : files.lookUp first = .ok (.directory base inner)
  otherResolved : files.lookUp second = .ok (.directory base inner)
  limits : ∀ names node, files.at? (base ++ names) = some node →
    (∀ data, node ≠ .leaf (.file data)) →
      (files.PastLimit first names ↔ files.PastLimit second names)

theorem not_pastLimit {files : FileSystem} {root : Bytes} {names : Location} {what : Found}
    (found : files.lookUp (Path.joinAll root names) = .ok what) : ¬files.PastLimit root names := by
  obtain ⟨_, _, short, _⟩ := resolve_eq_ok_iff.1 (lookUp_eq_ok_iff.1 found)
  rw [PastLimit, found, not_or]
  exact ⟨Nat.not_lt.2 short, nofun⟩

theorem sameRoot_of_followed {files : FileSystem} {first second : Bytes} {base : Location}
    {inner : Listing} (resolved : files.lookUp first = .ok (.directory base inner))
    (otherResolved : files.lookUp second = .ok (.directory base inner))
    (limits : ∀ names ∈ inner.followed,
      (files.PastLimit first names ↔ files.PastLimit second names)) :
    files.SameRoot first second base inner where
  resolved := resolved
  otherResolved := otherResolved
  limits := by
    intro names node stands noFile
    cases names with
    | nil => exact iff_of_false (not_pastLimit resolved) (not_pastLimit otherResolved)
    | cons name below =>
      rw [at?_below resolved] at stands
      obtain ⟨found, isFound, stands⟩ := Node.at?_cons.1 stands
      exact limits _ (Listing.mem_followed isFound stands noFile)

namespace SameRoot

variable {files : FileSystem} {first second : Bytes} {base : Location} {inner : Listing}
  (same : files.SameRoot first second base inner)

include same

theorem symm : files.SameRoot second first base inner where
  resolved := same.otherResolved
  otherResolved := same.resolved
  limits := fun names node stands noFile => (same.limits names node stands noFile).symm

theorem lookUp_eq {names : Location} {node : Node} {what : Found}
    (stands : files.at? (base ++ names) = some node) (noFile : ∀ data, node ≠ .leaf (.file data))
    (found : files.lookUp (Path.joinAll first names) = .ok what) :
    files.lookUp (Path.joinAll second names) = .ok what := by
  have firstWithin := not_pastLimit found
  have secondWithin := mt (same.limits names node stands noFile).2 firstWithin
  rw [PastLimit, not_or, Nat.not_lt] at firstWithin secondWithin
  rw [← found]
  exact (lookUp_joinAll_congr same.resolved same.otherResolved firstWithin.1 secondWithin.1
    firstWithin.2 secondWithin.2).symm

theorem reached {names : Location} {node : Node} (reached : files.Reached first base names node) :
    files.Reached second base names node where
  nonempty := reached.nonempty
  stands := reached.stands
  opened := by
    intro above nonempty start proper
    obtain ⟨below, stands, opens⟩ := reached.opened above nonempty start proper
    obtain ⟨location, found⟩ := openDirectory_eq_ok_iff.1 opens
    refine ⟨below, stands, openDirectory_eq_ok_iff.2 ⟨location, ?_⟩⟩
    exact same.lookUp_eq stands nofun found

theorem isMatch {extension : String} {names : Location}
    (found : files.Matches first base extension names) :
    files.Matches second base extension names := by
  obtain ⟨parents, name, item, split, reached, suffix, noDirectory⟩ := found
  refine ⟨parents, name, item, split, same.reached reached, suffix, ?_⟩
  rintro target rfl location below leads
  exact noDirectory target rfl location below (same.symm.lookUp_eq reached.stands nofun leads)

theorem matches_iff {extension : String} {names : Location} :
    files.Matches first base extension names ↔ files.Matches second base extension names :=
  ⟨same.isMatch, same.symm.isMatch⟩

theorem relativePaths_eq (extension : String) :
    (files.entries first extension).map Entry.relativePath =
      (files.entries second extension).map Entry.relativePath := by
  have located : (files.walk first).filterMap (files.foundAt? first extension) =
      (files.walk second).filterMap (files.foundAt? second extension) := by
    apply eq_of_ascending (foundAt?_ascending same.resolved extension)
      (foundAt?_ascending same.otherResolved extension)
    intro names
    rw [mem_filterMap_foundAt? same.resolved, mem_filterMap_foundAt? same.otherResolved]
    exact same.matches_iff
  rw [entries_eq, entries_eq, located, List.map_map, List.map_map]
  apply List.map_congr_left
  intro names member
  have nonempty := ((mem_filterMap_foundAt? same.otherResolved).1 member).ne_nil
  exact (relativePath_below same.resolved nonempty).trans
    (relativePath_below same.otherResolved nonempty).symm

end SameRoot

theorem named_below {files : FileSystem} {root : Bytes} {base : Location} {inner : Listing}
    (resolved : files.lookUp root = .ok (.directory base inner)) {names : Location}
    (nonempty : names ≠ []) : (Entry.below root names).Named root names where
  relativePath := relativePath_below resolved nonempty
  path := by
    rw [relativePath_below resolved nonempty, Entry.below, Path.joinAll_eq root nonempty,
      Path.divider]
    simp only [root_ne_nil resolved, false_or]
  belowRoot := by
    rw [Entry.below, Path.components_joinAll (root_ne_nil resolved) nonempty, dropStart?_append]

theorem entries_named {files : FileSystem} {root : Bytes} {base : Location} {inner : Listing}
    (resolved : files.lookUp root = .ok (.directory base inner)) (extension : String) :
    (∃ found, (∀ names, names ∈ found ↔ files.Matches root base extension names) ∧
      List.Forall₂ (Entry.Named root) found (files.entries root extension)) ∧
    ∀ other, files.SameRoot root other base inner →
      (files.entries root extension).map Entry.relativePath =
        (files.entries other extension).map Entry.relativePath := by
  constructor
  next =>
    refine ⟨(files.walk root).filterMap (files.foundAt? root extension),
      fun names => mem_filterMap_foundAt? resolved, ?_⟩
    rw [entries_eq, List.forall₂_map_right_iff, List.forall₂_same]
    intro names member
    exact named_below resolved ((mem_filterMap_foundAt? resolved).1 member).ne_nil
  next =>
    intro other same
    exact same.relativePaths_eq extension

theorem sameRoot_unsorted :
    unsortedFiles.SameRoot (Utf8.encode "r") (Utf8.encode "./t//") [.ofText "t" (by decide)]
      unsortedTree :=
  sameRoot_of_followed rfl rfl (by decide)

theorem entries_named_unsorted :
    unsortedFiles.lookUp (Utf8.encode "r") =
        .ok (.directory [.ofText "t" (by decide)] unsortedTree) ∧
      (∃ found,
        (∀ names, names ∈ found ↔ unsortedFiles.Matches (Utf8.encode "r")
          [.ofText "t" (by decide)] ".go" names) ∧
        List.Forall₂ (Entry.Named (Utf8.encode "r")) found
          (unsortedFiles.entries (Utf8.encode "r") ".go")) ∧
      unsortedFiles.SameRoot (Utf8.encode "r") (Utf8.encode "./t//") [.ofText "t" (by decide)]
        unsortedTree ∧
      (unsortedFiles.entries (Utf8.encode "r") ".go").map Entry.relativePath =
        (unsortedFiles.entries (Utf8.encode "./t//") ".go").map Entry.relativePath := by
  have resolved := sameRoot_unsorted.resolved
  obtain ⟨named, alike⟩ := entries_named resolved ".go"
  exact ⟨resolved, named, sameRoot_unsorted, alike _ sameRoot_unsorted⟩

example : (unsortedFiles.entries (Utf8.encode "./t//") ".go").map Entry.path =
    ["./t//a/y.go", "./t//a-b/x.go", "./t//a.go", "./t//c.go"].map Utf8.encode := by
  decide

end FileSystem

end SourceBook
