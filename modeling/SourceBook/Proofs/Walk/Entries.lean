import SourceBook.Proofs.FileSystem.Access
import SourceBook.Proofs.FileSystem.Below
import SourceBook.Proofs.Walk.Reach

set_option autoImplicit false

namespace SourceBook

theorem Node.Distinct.of_at? {node below : Node} (distinct : node.Distinct) {location : Location}
    (stands : node.at? location = some below) : below.Distinct := by
  induction location generalizing node with
  | nil =>
    rw [Node.at?, Option.some.injEq] at stands
    exact stands ▸ distinct
  | cons name rest ih =>
    cases node with
    | leaf item => contradiction
    | directory inner =>
      obtain ⟨next, found, stands⟩ := Node.at?_cons.1 stands
      exact ih (Listing.Distinct.of_find? distinct found) stands

theorem hasExtension_iff {name : Bytes} {extension : String} :
    hasExtension name extension = true ↔ extension.toList <:+ (Utf8.lossy name).toList := by
  rw [hasExtension, List.isSuffixOf_iff_suffix]

theorem InOrder.filterMap {β : Type} {place? : Visit → Option β} {location : β → Location}
    {visits : List Visit} (inOrder : InOrder visits)
    (placed : ∀ visit found, place? visit = some found → location found = visit.location) :
    (visits.filterMap place?).Pairwise fun first second => location first < location second := by
  apply List.pairwise_filterMap.2
  apply inOrder.imp
  intro first second before firstFound firstPlaced secondFound secondPlaced
  rw [placed first firstFound firstPlaced, placed second secondFound secondPlaced]
  exact before

namespace FileSystem

/-- The directories on the way are no links, and each opens under its path as the directory that stands
there. -/
structure Reached (files : FileSystem) (root : Bytes) (base names : Location) (node : Node) :
    Prop where
  nonempty : names ≠ []
  stands : files.at? (base ++ names) = some node
  opened : ∀ above, above ≠ [] → above <+: names → above ≠ names →
    ∃ inner, files.at? (base ++ above) = some (.directory inner) ∧
      files.openDirectory (Path.joinAll root above) = .ok inner

def Matches (files : FileSystem) (root : Bytes) (base : Location) (extension : String)
    (names : Location) : Prop :=
  ∃ parents name item, names = parents ++ [name] ∧ files.Reached root base names (.leaf item) ∧
    extension.toList <:+ (Utf8.lossy name.bytes).toList ∧
    ∀ target, item = .link target → ∀ location inner,
      files.lookUp (Path.joinAll root names) ≠ .ok (.directory location inner)

def Shut (files : FileSystem) (root : Bytes) (base names : Location) (cause : AccessError) : Prop :=
  ∃ inner, files.Reached root base names (.directory inner) ∧
    files.openDirectory (Path.joinAll root names) = .error cause

theorem unopened?_eq_none_iff {files : FileSystem} {root : Bytes} {location : Location} :
    files.unopened? root location = none ↔
      ∃ listing, files.openDirectory (Path.joinAll root location) = .ok listing := by
  rw [unopened?]
  split
  next listing opened => simp [opened]
  next cause refused => simp [refused]

theorem unopened?_eq_some_iff {files : FileSystem} {root : Bytes} {location : Location}
    {cause : AccessError} :
    files.unopened? root location = some cause ↔
      files.openDirectory (Path.joinAll root location) = .error cause := by
  rw [unopened?]
  split
  next listing opened => simp [opened]
  next cause refused => simp [refused]

theorem leafEntry_eq_some_iff {files : FileSystem} {root : Bytes} {extension : String}
    {parents : Location} {name : Name} {item : Leaf} {entry : Entry} :
    files.entry? root extension (.leaf parents name item) = some entry ↔
      (extension.toList <:+ (Utf8.lossy name.bytes).toList ∧
        ∀ target, item = .link target → ∀ location inner,
          files.lookUp (Path.joinAll root (parents ++ [name])) ≠ .ok (.directory location inner)) ∧
      Entry.below root (parents ++ [name]) = entry := by
  simp only [hasExtension_iff, entry?, Bool.and_eq_true, Bool.not_eq_true',
    Option.ite_none_right_eq_some, Option.some.injEq]
  cases item with
  | file data => simp
  | link target => simp [isDirectory_eq_false_iff, Entry.below]

theorem eq_below_of_found {files : FileSystem} {root : Bytes} {extension : String} {visit : Visit}
    {entry : Entry} (found : files.entry? root extension visit = some entry) :
    entry = Entry.below root visit.location := by
  cases visit with
  | leaf parents name item => exact (leafEntry_eq_some_iff.1 found).2.symm
  | unopened location cause => contradiction

def foundAt? (files : FileSystem) (root : Bytes) (extension : String) (visit : Visit) :
    Option Location :=
  (files.entry? root extension visit).map fun _ => visit.location

def toldAt? (files : FileSystem) (root : Bytes) (extension : String) (visit : Visit) :
    Option (Location × Event) :=
  (files.visitEvent? root extension visit).map (visit.location, ·)

theorem entries_eq (files : FileSystem) (root : Bytes) (extension : String) :
    files.entries root extension =
      ((files.walk root).filterMap (files.foundAt? root extension)).map (Entry.below root) := by
  rw [entries, List.map_filterMap]
  congr 1
  funext visit
  rw [foundAt?, Option.map_map]
  cases found : files.entry? root extension visit with
  | none => rfl
  | some entry => exact congrArg some (eq_below_of_found found)

theorem walkLog_eq (files : FileSystem) (root : Bytes) (extension : String) :
    files.walkLog root extension =
      ((files.walk root).filterMap (files.toldAt? root extension)).map Prod.snd := by
  rw [walkLog, List.map_filterMap]
  congr 1
  funext visit
  rw [toldAt?, Option.map_map]
  exact Option.map_id_apply.symm

section Root

variable {files : FileSystem} {root : Bytes} {base : Location} {inner : Listing}
  (resolved : files.lookUp root = .ok (.directory base inner))

include resolved

theorem root_ne_nil : root ≠ [] :=
  (resolve_eq_ok_iff.1 (lookUp_eq_ok_iff.1 resolved)).2.1

theorem relativePath_below {names : Location} (nonempty : names ≠ []) :
    (Entry.below root names).relativePath = joinWith slash (names.map Name.bytes) :=
  Path.relativeTo_joinAll (root_ne_nil resolved) nonempty

theorem at?_below (names : Location) :
    files.at? (base ++ names) = (Node.directory inner).at? names := by
  have stands : files.at? base = some (.directory inner) := lookUp_stands resolved
  rw [at?] at stands ⊢
  rw [Node.at?_append, stands, Option.bind_some]

theorem distinct_root : inner.Distinct := by
  have topDistinct : (Node.directory files.top).Distinct := files.distinct
  exact topDistinct.of_at? (lookUp_stands resolved)

theorem walk_eq : files.walk root = inner.visits (files.unopened? root) [] := by
  rw [walk, resolved]
  rfl

-- A path that leads anywhere is short enough to lead to what stands at its names.
theorem found_eq_of_stands {names : Location} {what there : Found} {node : Node}
    (found : files.lookUp (Path.joinAll root names) = .ok what)
    (stands : files.at? (base ++ names) = some node)
    (shown : node.found? (base ++ names) = some there) : what = there := by
  obtain ⟨_, _, short, _⟩ := resolve_eq_ok_iff.1 (lookUp_eq_ok_iff.1 found)
  rw [at?_below resolved] at stands
  exact Except.ok.inj (found.symm.trans (lookUp_joinAll resolved short stands shown))

theorem openDirectory_joinAll {names : Location} {listing deeper : Listing}
    (opens : files.openDirectory (Path.joinAll root names) = .ok listing)
    (stands : files.at? (base ++ names) = some (.directory deeper)) : listing = deeper := by
  obtain ⟨location, found⟩ := openDirectory_eq_ok_iff.1 opens
  cases found_eq_of_stands resolved found stands rfl
  rfl

theorem reached_iff {names : Location} {node : Node} :
    files.Reached root base names node ↔
      Listing.Walks (files.unopened? root) [] inner names node := by
  rw [Listing.walks_iff, ← at?_below resolved]
  constructor
  next =>
    intro reached
    refine ⟨reached.nonempty, reached.stands, ?_⟩
    intro above nonempty start proper
    obtain ⟨inner, -, opened⟩ := reached.opened above nonempty start proper
    exact unopened?_eq_none_iff.2 ⟨inner, opened⟩
  next =>
    intro walked
    rcases walked with ⟨nonempty, stands, opened⟩
    refine ⟨nonempty, stands, ?_⟩
    intro above aboveNonempty start proper
    obtain ⟨listing, opens⟩ := unopened?_eq_none_iff.1 (opened above aboveNonempty start proper)
    -- A leaf has nothing below it, so what stands above `names` is a directory.
    rcases start with ⟨below, rfl⟩
    rw [← List.append_assoc, at?, Node.at?_append] at stands
    obtain ⟨middle, found, deeper⟩ := Option.bind_eq_some_iff.1 stands
    cases below with
    | nil => exact absurd (List.append_nil above).symm proper
    | cons next rest =>
      cases middle with
      | leaf item => contradiction
      | directory inner =>
        obtain rfl := openDirectory_joinAll resolved opens found
        exact ⟨listing, found, opens⟩

theorem mem_walk {visit : Visit} :
    visit ∈ files.walk root ↔
      ∃ names node, files.Reached root base names node ∧
        visit.Tells (files.unopened? root) names node := by
  rw [walk_eq resolved, Listing.mem_visits_iff (distinct_root resolved)]
  simp only [reached_iff resolved, List.nil_append]

theorem matches_iff {extension : String} {names : Location} :
    files.Matches root base extension names ↔
      ∃ visit ∈ files.walk root,
        files.entry? root extension visit = some (Entry.below root names) ∧
          visit.location = names := by
  constructor
  next =>
    intro found
    rcases found with ⟨parents, name, item, rfl, reached, qualifies⟩
    refine ⟨.leaf parents name item, ?_, leafEntry_eq_some_iff.2 ⟨qualifies, rfl⟩, rfl⟩
    exact (mem_walk resolved).2 ⟨_, _, reached, .leaf parents name item⟩
  next =>
    intro visited
    rcases visited with ⟨visit, member, found, rfl⟩
    obtain ⟨names, node, reached, told⟩ := (mem_walk resolved).1 member
    cases told with
    | leaf parents name item =>
      exact ⟨parents, name, item, rfl, reached, (leafEntry_eq_some_iff.1 found).1⟩
    | unopened inner refused => contradiction

theorem shut_iff {names : Location} {cause : AccessError} :
    files.Shut root base names cause ↔ .unopened names cause ∈ files.walk root := by
  rw [mem_walk resolved]
  constructor
  next =>
    intro shut
    rcases shut with ⟨inner, reached, refused⟩
    exact ⟨names, _, reached, .unopened inner (unopened?_eq_some_iff.2 refused)⟩
  next =>
    intro visited
    rcases visited with ⟨_, node, reached, told⟩
    cases told with
    | unopened inner refused => exact ⟨inner, reached, unopened?_eq_some_iff.1 refused⟩

theorem walk_inOrder : InOrder (files.walk root) := by
  rw [walk_eq resolved]
  exact Listing.visits_inOrder [] (distinct_root resolved)

theorem foundAt?_ascending (extension : String) :
    ((files.walk root).filterMap (files.foundAt? root extension)).Pairwise (· < ·) := by
  apply (walk_inOrder resolved).filterMap
  intro visit names found
  obtain ⟨_, _, same⟩ := Option.map_eq_some_iff.1 found
  exact same.symm

theorem mem_filterMap_foundAt? {extension : String} {names : Location} :
    names ∈ (files.walk root).filterMap (files.foundAt? root extension) ↔
      files.Matches root base extension names := by
  rw [List.mem_filterMap, matches_iff resolved]
  constructor
  next =>
    intro visited
    rcases visited with ⟨visit, member, found⟩
    obtain ⟨entry, isEntry, rfl⟩ := Option.map_eq_some_iff.1 found
    exact ⟨visit, member, eq_below_of_found isEntry ▸ isEntry, rfl⟩
  next =>
    intro visited
    rcases visited with ⟨visit, member, found, rfl⟩
    exact ⟨visit, member, Option.map_eq_some_iff.2 ⟨_, found, rfl⟩⟩

theorem mem_entries_iff {extension : String} {entry : Entry} :
    entry ∈ files.entries root extension ↔
      ∃ names, files.Matches root base extension names ∧ Entry.below root names = entry := by
  rw [entries_eq, List.mem_map]
  simp only [mem_filterMap_foundAt? resolved]

theorem ne_directory_of_mem_entries {extension : String} {entry : Entry}
    (member : entry ∈ files.entries root extension) (location : Location) (listing : Listing) :
    files.lookUp entry.path ≠ .ok (.directory location listing) := by
  obtain ⟨names, found, rfl⟩ := (mem_entries_iff resolved).1 member
  obtain ⟨parents, name, item, rfl, reached, -, noDirectory⟩ := found
  cases item with
  | link target => exact noDirectory target rfl location listing
  | file data =>
    intro leads
    cases found_eq_of_stands resolved leads reached.stands rfl

theorem mem_filterMap_toldAt? {extension : String} {names : Location} {event : Event} :
    (names, event) ∈ (files.walk root).filterMap (files.toldAt? root extension) ↔
      (files.Matches root base extension names ∧
        event = ⟨.trace, .searching,
          "Matched " ++ Utf8.lossy (Entry.below root names).relativePath⟩) ∨
      ∃ cause, files.Shut root base names cause ∧
        event = ⟨.warn, .searching, "Directory traversal error: IO error for operation on " ++
          Utf8.lossy (Path.joinAll root names) ++ ": " ++ cause.message⟩ := by
  rw [List.mem_filterMap]
  constructor
  next =>
    intro visited
    rcases visited with ⟨visit, member, told⟩
    obtain ⟨event, tells, same⟩ := Option.map_eq_some_iff.1 told
    obtain ⟨rfl, rfl⟩ := Prod.mk.inj same
    cases visit with
    | leaf parents name item =>
      obtain ⟨entry, found, rfl⟩ := Option.map_eq_some_iff.1 tells
      obtain rfl := eq_below_of_found found
      exact .inl ⟨(matches_iff resolved).2 ⟨_, member, found, rfl⟩, rfl⟩
    | unopened names cause =>
      exact .inr ⟨cause, (shut_iff resolved).2 member, (Option.some.inj tells).symm⟩
  next =>
    intro about
    rcases about with matched | unvisited
    next =>
      rcases matched with ⟨isMatch, rfl⟩
      obtain ⟨visit, member, found, rfl⟩ := (matches_iff resolved).1 isMatch
      cases visit with
      | leaf parents name item =>
        exact ⟨_, member, by rw [toldAt?, visitEvent?, found]; rfl⟩
      | unopened location cause => contradiction
    next =>
      rcases unvisited with ⟨cause, shut, rfl⟩
      exact ⟨_, (shut_iff resolved).1 shut, rfl⟩

end Root

theorem Matches.ne_nil {files : FileSystem} {root : Bytes} {base names : Location}
    {extension : String} (found : files.Matches root base extension names) : names ≠ [] := by
  rcases found with ⟨_, _, _, _, reached, _⟩
  exact reached.nonempty

structure Walked (files : FileSystem) (root : Bytes) (base : Location) (extension : String)
    (found : List Location) (told : List (Location × Event)) : Prop where
  entries : files.entries root extension = found.map (Entry.below root)
  nodup : (files.entries root extension).Nodup
  ascending : found.Pairwise (· < ·)
  mem_found : ∀ names, names ∈ found ↔ files.Matches root base extension names
  walkLog : files.walkLog root extension = told.map Prod.snd
  tellsInOrder : told.Pairwise fun first second => first.1 < second.1
  mem_told : ∀ names event, (names, event) ∈ told ↔
    (files.Matches root base extension names ∧
      event = ⟨.trace, .searching,
        "Matched " ++ Utf8.lossy (Entry.below root names).relativePath⟩) ∨
    ∃ cause, files.Shut root base names cause ∧
      event = ⟨.warn, .searching, "Directory traversal error: IO error for operation on " ++
        Utf8.lossy (Path.joinAll root names) ++ ": " ++ cause.message⟩

theorem exists_walked {files : FileSystem} {root : Bytes} {base : Location} {inner : Listing}
    (resolved : files.lookUp root = .ok (.directory base inner)) (extension : String) :
    ∃ found told, files.Walked root base extension found told := by
  have ascending := foundAt?_ascending resolved extension
  refine ⟨(files.walk root).filterMap (files.foundAt? root extension),
    (files.walk root).filterMap (files.toldAt? root extension), ?_⟩
  constructor
  case entries => exact entries_eq files root extension
  case ascending => exact ascending
  case mem_found => exact fun _ => mem_filterMap_foundAt? resolved
  case walkLog => exact walkLog_eq files root extension
  case mem_told => exact fun _ _ => mem_filterMap_toldAt? resolved
  case tellsInOrder =>
    apply (walk_inOrder resolved).filterMap
    intro visit told tells
    obtain ⟨_, _, rfl⟩ := Option.map_eq_some_iff.1 tells
    rfl
  case nodup =>
    rw [entries_eq]
    refine List.pairwise_map.2 (ascending.imp_of_mem ?_)
    intro first second firstIn secondIn before same
    have firstNonempty := ((mem_filterMap_foundAt? resolved).1 firstIn).ne_nil
    have secondNonempty := ((mem_filterMap_foundAt? resolved).1 secondIn).ne_nil
    obtain rfl := Path.joinAll_injective root firstNonempty secondNonempty
      (congrArg Entry.path same)
    exact List.lt_irrefl first before

-- The directory `t`, to which the link `r` leads, lists its entries in no order.
def unsortedTree : Listing :=
  .leaf (.ofText "a.go" (by decide)) (.file []) <|
  .leaf (.ofText "b.go" (by decide)) (.link (Utf8.encode "a")) <|
  .directory (.ofText "a-b" (by decide)) (.leaf (.ofText "x.go" (by decide)) (.file []) .nil) <|
  .leaf (.ofText "c.go" (by decide)) (.link (Utf8.encode "gone")) <|
  .directory (.ofText "a" (by decide)) (.leaf (.ofText "y.go" (by decide)) (.file []) .nil) .nil

def unsortedFiles : FileSystem where
  top := .leaf (.ofText "r" (by decide)) (.link (Utf8.encode "t")) <|
    .directory (.ofText "t" (by decide)) unsortedTree .nil
  cwd := []
  distinct := by decide

theorem exists_walked_unsorted :
    unsortedFiles.lookUp (Utf8.encode "r") =
        .ok (.directory [.ofText "t" (by decide)] unsortedTree) ∧
      ∃ found told,
        unsortedFiles.Walked (Utf8.encode "r") [.ofText "t" (by decide)] ".go" found told :=
  ⟨rfl, exists_walked rfl ".go"⟩

example : (unsortedFiles.entries (Utf8.encode "r") ".go").map Entry.relativePath =
    ["a/y.go", "a-b/x.go", "a.go", "c.go"].map Utf8.encode := by
  decide

end FileSystem

end SourceBook
