import SourceBook.Walk

set_option autoImplicit false

namespace SourceBook

namespace Name

theorem lt_trans {first second third : Name} (before : first < second) (after : second < third) :
    first < third :=
  List.lt_trans before after

theorem lt_of_not_lt {first second : Name} (different : first ≠ second)
    (notBefore : ¬first < second) : second < first := by
  rcases Std.lt_trichotomy first.bytes second.bytes with before | same | after
  next => exact absurd before notBefore
  next =>
    cases first
    cases second
    exact absurd (by cases same; rfl) different
  next => exact after

instance : Std.Irrefl (fun first second : Name => first < second) :=
  ⟨fun name => List.lt_irrefl name.bytes⟩

instance : Trans (fun first second : Name => first < second)
    (fun first second : Name => first < second) (fun first second : Name => first < second) :=
  ⟨lt_trans⟩

end Name

def Visit.location : Visit → Location
  | .leaf parents name _ => parents ++ [name]
  | .unopened location _ => location

theorem mem_insert {branch other : Branch} {branches : List Branch} :
    other ∈ branch.insert branches ↔ other = branch ∨ other ∈ branches := by
  induction branches with
  | nil => simp [Branch.insert]
  | cons head rest ih =>
    rw [Branch.insert]
    split
    next =>
      rw [List.mem_cons, ih, List.mem_cons]
      exact or_left_comm
    next => exact List.mem_cons

def Ascending (branches : List Branch) : Prop :=
  branches.Pairwise fun first second => first.name < second.name

theorem Ascending.insert {branch : Branch} {branches : List Branch} (sorted : Ascending branches)
    (fresh : ∀ other ∈ branches, branch.name ≠ other.name) :
    Ascending (branch.insert branches) := by
  induction branches with
  | nil => exact List.pairwise_singleton _ _
  | cons head rest ih =>
    obtain ⟨headFirst, restSorted⟩ := List.pairwise_cons.1 sorted
    rw [Branch.insert]
    split
    next before =>
      refine List.pairwise_cons.2 ⟨?_, ih restSorted fun other member =>
        fresh other (List.mem_cons_of_mem _ member)⟩
      intro other member
      rcases mem_insert.1 member with rfl | member
      next => exact before
      next => exact headFirst other member
    next notBefore =>
      have first := Name.lt_of_not_lt (fresh head List.mem_cons_self).symm notBefore
      refine List.pairwise_cons.2 ⟨?_, sorted⟩
      intro other member
      rcases List.mem_cons.1 member with rfl | member
      next => exact first
      next => exact Name.lt_trans first (headFirst other member)

theorem lt_of_below {parents first second : Location} {firstName secondName : Name}
    (firstBelow : parents ++ [firstName] <+: first)
    (secondBelow : parents ++ [secondName] <+: second) (before : firstName < secondName) :
    first < second := by
  rcases firstBelow with ⟨firstRest, rfl⟩
  rcases secondBelow with ⟨secondRest, rfl⟩
  rw [List.append_assoc, List.append_assoc]
  exact List.append_left_lt (List.cons_lt_cons_iff.2 (.inl before))

def InOrder (visits : List Visit) : Prop :=
  visits.Pairwise fun first second => first.location < second.location

structure Branch.Within (parents : Location) (branch : Branch) : Prop where
  below : ∀ visit ∈ branch.visits, parents ++ [branch.name] <+: visit.location
  inOrder : InOrder branch.visits

theorem inOrder_flatMap {parents : Location} {branches : List Branch}
    (ascending : Ascending branches) (within : ∀ branch ∈ branches, branch.Within parents) :
    InOrder (branches.flatMap Branch.visits) := by
  refine List.pairwise_flatMap.2 ⟨fun branch member => (within branch member).inOrder, ?_⟩
  apply ascending.imp_of_mem
  intro first second firstMember secondMember before firstVisit firstIn secondVisit secondIn
  exact lt_of_below ((within first firstMember).below firstVisit firstIn)
    ((within second secondMember).below secondVisit secondIn) before

-- Places in ascending order are settled by which places they are.
theorem eq_of_ascending {α : Type} {place : α → Location} {first second : List α}
    (firstAscending : first.Pairwise fun before after => place before < place after)
    (secondAscending : second.Pairwise fun before after => place before < place after)
    (same : ∀ item, item ∈ first ↔ item ∈ second) : first = second := by
  have nodup {items : List α}
      (ascending : items.Pairwise fun before after => place before < place after) :
      items.Nodup := by
    apply ascending.imp
    rintro before _ isBefore rfl
    exact List.lt_irrefl _ isBefore
  apply List.Perm.eq_of_pairwise _ firstAscending secondAscending
  next => exact (List.perm_ext_iff_of_nodup (nodup firstAscending) (nodup secondAscending)).2 same
  next =>
    intro before after _ _ isBefore isAfter
    exact absurd (List.lt_trans isBefore isAfter) (List.lt_irrefl _)

namespace Listing

variable {unopened? : Location → Option AccessError}

theorem name_mem_of_mem_branches {parents : Location} {listing : Listing} {branch : Branch}
    (member : branch ∈ listing.branches unopened? parents) : branch.name ∈ listing.names := by
  induction listing with
  | nil => simp [branches] at member
  | leaf name item rest ih | directory name inner rest _ ih =>
    rw [branches] at member
    rcases mem_insert.1 member with rfl | member
    next => exact List.mem_cons_self
    next => exact List.mem_cons_of_mem _ (ih member)

theorem branches_ascending {parents : Location} {listing : Listing} (distinct : listing.Distinct) :
    Ascending (listing.branches unopened? parents) := by
  have fresh {name : Name} {rest : Listing} (absent : name ∉ rest.names) :
      ∀ other ∈ rest.branches unopened? parents, name ≠ other.name := by
    intro other member same
    exact absent (same ▸ name_mem_of_mem_branches member)
  induction listing with
  | nil => exact List.Pairwise.nil
  | leaf name item rest ih => exact (ih distinct.2).insert (fresh distinct.1)
  | directory name inner rest _ ih => exact (ih distinct.2.2).insert (fresh distinct.1)

theorem branches_within (parents : Location) {listing : Listing} (distinct : listing.Distinct) :
    ∀ branch ∈ listing.branches unopened? parents, branch.Within parents := by
  induction listing generalizing parents with
  | nil => simp [branches]
  | leaf name item rest ih =>
    intro branch member
    rw [branches] at member
    rcases mem_insert.1 member with rfl | member
    next => exact ⟨by simp [Visit.location], List.pairwise_singleton _ _⟩
    next => exact ih parents distinct.2 branch member
  | directory name inner rest innerIh ih =>
    intro branch member
    rw [branches] at member
    rcases mem_insert.1 member with rfl | member
    next =>
      have within := innerIh (parents ++ [name]) distinct.2.1
      split
      next => exact ⟨by simp [Visit.location], List.pairwise_singleton _ _⟩
      next =>
        refine ⟨?_, inOrder_flatMap (branches_ascending distinct.2.1) within⟩
        intro visit visited
        obtain ⟨deeper, deeperIn, visited⟩ := List.mem_flatMap.1 visited
        exact (List.prefix_append _ _).trans ((within deeper deeperIn).below visit visited)
    next => exact ih parents distinct.2.2 branch member

def visits (unopened? : Location → Option AccessError) (parents : Location) (listing : Listing) :
    List Visit :=
  (listing.branches unopened? parents).flatMap Branch.visits

theorem visits_inOrder (parents : Location) {listing : Listing} (distinct : listing.Distinct) :
    InOrder (listing.visits unopened? parents) :=
  inOrder_flatMap (branches_ascending distinct) (branches_within parents distinct)

end Listing

end SourceBook
