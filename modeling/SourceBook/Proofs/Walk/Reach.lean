import SourceBook.Proofs.FileSystem.Resolution
import SourceBook.Proofs.Walk.Order

set_option autoImplicit false

namespace SourceBook

namespace Listing

variable {unopened? : Location → Option AccessError}

theorem mem_names_of_find? {name : Name} {listing : Listing} {node : Node}
    (found : listing.find? name = some node) : name ∈ listing.names := by
  induction listing with
  | nil => contradiction
  | leaf head item rest ih | directory head inner rest _ ih =>
    rw [find?] at found
    split at found
    next same => exact same ▸ List.mem_cons_self
    next => exact List.mem_cons_of_mem _ (ih found)

inductive Walks (unopened? : Location → Option AccessError) :
    Location → Listing → Location → Node → Prop where
  | entry {parents : Location} {listing : Listing} {name : Name} {node : Node}
      (found : listing.find? name = some node) : Walks unopened? parents listing [name] node
  | inside {parents names : Location} {listing inner : Listing} {name : Name} {node : Node}
      (found : listing.find? name = some (.directory inner))
      (opens : unopened? (parents ++ [name]) = none)
      (deeper : Walks unopened? (parents ++ [name]) inner names node) :
      Walks unopened? parents listing (name :: names) node

theorem Walks.mono {parents names : Location} {listing larger : Listing} {node : Node}
    (walked : Walks unopened? parents listing names node)
    (kept : ∀ name below, listing.find? name = some below → larger.find? name = some below) :
    Walks unopened? parents larger names node := by
  cases walked with
  | entry found => exact .entry (kept _ _ found)
  | inside found opens deeper => exact .inside (kept _ _ found) opens deeper

theorem Walks.ne_nil {parents names : Location} {listing : Listing} {node : Node}
    (walked : Walks unopened? parents listing names node) : names ≠ [] := by
  cases walked <;> simp

end Listing

inductive Visit.Tells (unopened? : Location → Option AccessError) :
    Location → Node → Visit → Prop where
  | leaf (parents : Location) (name : Name) (item : Leaf) :
      Tells unopened? (parents ++ [name]) (.leaf item) (.leaf parents name item)
  | unopened {location : Location} (inner : Listing) {cause : AccessError}
      (refused : unopened? location = some cause) :
      Tells unopened? location (.directory inner) (.unopened location cause)

theorem Visit.Tells.location {unopened? : Location → Option AccessError} {location : Location}
    {node : Node} {visit : Visit} (told : Tells unopened? location node visit) :
    visit.location = location := by
  cases told <;> rfl

namespace Listing

variable {unopened? : Location → Option AccessError}

theorem mem_visits_insert {branch : Branch} {branches : List Branch} {visit : Visit} :
    visit ∈ (branch.insert branches).flatMap Branch.visits ↔
      visit ∈ branch.visits ∨ visit ∈ branches.flatMap Branch.visits := by
  simp only [List.mem_flatMap, mem_insert, or_and_right, exists_or, exists_eq_left]

theorem find?_cons_of_rest {name other : Name} (node : Node) {rest : Listing} {below : Node}
    (absent : name ∉ rest.names) (found : rest.find? other = some below) :
    (cons name node rest).find? other = some below := by
  rw [find?_cons, if_neg, found]
  intro same
  exact absent (same ▸ mem_names_of_find? found)

theorem exists_walks_of_mem_visits {parents : Location} {listing : Listing} {visit : Visit}
    (distinct : listing.Distinct) (member : visit ∈ listing.visits unopened? parents) :
    ∃ names node, Walks unopened? parents listing names node ∧
      visit.Tells unopened? (parents ++ names) node := by
  induction listing generalizing parents with
  | nil => simp [visits, branches] at member
  | leaf name item rest ih =>
    rcases distinct with ⟨absent, restDistinct⟩
    rw [visits, branches, mem_visits_insert] at member
    rcases member with here | later
    next =>
      rw [List.mem_singleton] at here
      subst here
      exact ⟨[name], .leaf item, .entry (if_pos rfl), .leaf parents name item⟩
    next =>
      obtain ⟨names, node, walked, told⟩ := ih restDistinct later
      exact ⟨names, node, walked.mono fun _ _ => find?_cons_of_rest (.leaf item) absent, told⟩
  | directory name inner rest innerIh ih =>
    rcases distinct with ⟨absent, innerDistinct, restDistinct⟩
    have stands : (directory name inner rest).find? name = some (.directory inner) := if_pos rfl
    rw [visits, branches, mem_visits_insert] at member
    rcases member with here | later
    next =>
      cases shut : unopened? (parents ++ [name]) with
      | some cause =>
        simp only [shut, List.mem_singleton] at here
        subst here
        exact ⟨[name], .directory inner, .entry stands, .unopened inner shut⟩
      | none =>
        simp only [shut] at here
        obtain ⟨names, node, walked, told⟩ := innerIh innerDistinct here
        refine ⟨name :: names, node, .inside stands shut walked, ?_⟩
        rwa [List.append_assoc] at told
    next =>
      obtain ⟨names, node, walked, told⟩ := ih restDistinct later
      exact ⟨names, node, walked.mono fun _ _ => find?_cons_of_rest (.directory inner) absent, told⟩

def entryVisits (unopened? : Location → Option AccessError) (parents : Location) (name : Name) :
    Node → List Visit
  | .leaf item => [.leaf parents name item]
  | .directory inner =>
    match unopened? (parents ++ [name]) with
    | some cause => [.unopened (parents ++ [name]) cause]
    | none => inner.visits unopened? (parents ++ [name])

theorem mem_visits_of_find? {parents : Location} {listing : Listing} {name : Name} {node : Node}
    {visit : Visit} (found : listing.find? name = some node)
    (member : visit ∈ entryVisits unopened? parents name node) :
    visit ∈ listing.visits unopened? parents := by
  induction listing with
  | nil => contradiction
  | leaf head item rest ih | directory head inner rest _ ih =>
    rw [visits, branches, mem_visits_insert]
    rw [find?] at found
    split at found
    next same =>
      cases found
      exact .inl (same ▸ member)
    next => exact .inr (ih found)

theorem mem_visits_of_walks {parents names : Location} {listing : Listing} {node : Node}
    {visit : Visit} (walked : Walks unopened? parents listing names node)
    (told : visit.Tells unopened? (parents ++ names) node) :
    visit ∈ listing.visits unopened? parents := by
  induction walked with
  | @entry parents listing name node found =>
    apply mem_visits_of_find? found
    generalize here : parents ++ [name] = location at told
    cases told with
    | leaf _ _ item =>
      obtain ⟨rfl, same⟩ := List.append_inj' here rfl
      cases same
      exact List.mem_singleton_self _
    | unopened inner refused =>
      subst here
      simp [entryVisits, refused]
  | @inside parents names listing inner name node found opens _ ih =>
    apply mem_visits_of_find? found
    rw [entryVisits, opens]
    apply ih
    rwa [List.append_assoc]

theorem mem_visits_iff {parents : Location} {listing : Listing} {visit : Visit}
    (distinct : listing.Distinct) :
    visit ∈ listing.visits unopened? parents ↔
      ∃ names node, Walks unopened? parents listing names node ∧
        visit.Tells unopened? (parents ++ names) node := by
  constructor
  next => exact exists_walks_of_mem_visits distinct
  next =>
    intro walk
    rcases walk with ⟨names, node, walked, told⟩
    exact mem_visits_of_walks walked told

theorem Walks.stands {parents names : Location} {listing : Listing} {node : Node}
    (walked : Walks unopened? parents listing names node) :
    (Node.directory listing).at? names = some node := by
  induction walked with
  | entry found => exact Node.at?_cons.2 ⟨_, found, by simp [Node.at?]⟩
  | inside found _ _ ih => exact Node.at?_cons.2 ⟨_, found, ih⟩

theorem Walks.opened {parents names above : Location} {listing : Listing} {node : Node}
    (walked : Walks unopened? parents listing names node) (nonempty : above ≠ [])
    (start : above <+: names) (proper : above ≠ names) :
    unopened? (parents ++ above) = none := by
  induction walked generalizing above with
  | entry found =>
    cases above with
    | nil => contradiction
    | cons head rest =>
      obtain ⟨rfl, ends⟩ := List.cons_prefix_cons.1 start
      exact absurd (by rw [List.prefix_nil.1 ends]) proper
  | @inside parents names listing inner name node found opens _ ih =>
    cases above with
    | nil => contradiction
    | cons head rest =>
      obtain ⟨rfl, further⟩ := List.cons_prefix_cons.1 start
      cases rest with
      | nil => exact opens
      | cons next rest =>
        have deeper := ih (by simp) further fun same => proper (congrArg _ same)
        rwa [List.append_assoc] at deeper

theorem walks_of_opened {parents names : Location} {listing : Listing} {node : Node}
    (nonempty : names ≠ []) (stands : (Node.directory listing).at? names = some node)
    (opened : ∀ above, above ≠ [] → above <+: names → above ≠ names →
      unopened? (parents ++ above) = none) :
    Walks unopened? parents listing names node := by
  induction names generalizing parents listing with
  | nil => contradiction
  | cons name rest ih =>
    obtain ⟨below, found, stands⟩ := Node.at?_cons.1 stands
    cases rest with
    | nil =>
      simp only [Node.at?, Option.some.injEq] at stands
      exact .entry (stands ▸ found)
    | cons next rest =>
      cases below with
      | leaf item => contradiction
      | directory inner =>
        refine .inside found (opened [name] (by simp) ⟨next :: rest, rfl⟩ (by simp)) ?_
        apply ih (by simp) stands
        intro above _ start proper
        rw [List.append_assoc]
        exact opened (name :: above) (by simp) (List.cons_prefix_cons.2 ⟨rfl, start⟩)
          fun same => proper (List.cons.inj same).2

theorem walks_iff {parents names : Location} {listing : Listing} {node : Node} :
    Walks unopened? parents listing names node ↔
      names ≠ [] ∧ (Node.directory listing).at? names = some node ∧
        ∀ above, above ≠ [] → above <+: names → above ≠ names →
          unopened? (parents ++ above) = none := by
  constructor
  next =>
    intro walked
    exact ⟨walked.ne_nil, walked.stands, fun _ => walked.opened⟩
  next =>
    intro reached
    rcases reached with ⟨nonempty, stands, opened⟩
    exact walks_of_opened nonempty stands opened

end Listing

end SourceBook
