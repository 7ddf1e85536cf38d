import SourceBook.FileSystem.Name

set_option autoImplicit false

namespace SourceBook

inductive Leaf where
  | file (data : Bytes)
  | link (target : Bytes)
  deriving DecidableEq

/-- The entries stand in the order in which the directory gives them, which need not be that of their
names. -/
inductive Listing where
  | nil
  | leaf (name : Name) (item : Leaf) (rest : Listing)
  | directory (name : Name) (inner : Listing) (rest : Listing)
  deriving DecidableEq

inductive Node where
  | leaf (item : Leaf)
  | directory (inner : Listing)
  deriving DecidableEq

namespace Listing

def names : Listing → List Name
  | nil => []
  | leaf name _ rest | directory name _ rest => name :: rest.names

def Distinct : Listing → Prop
  | nil => True
  | leaf name _ rest => name ∉ rest.names ∧ rest.Distinct
  | directory name inner rest => name ∉ rest.names ∧ inner.Distinct ∧ rest.Distinct

def decideDistinct : (listing : Listing) → Decidable listing.Distinct
  | nil => .isTrue trivial
  | leaf name _ rest =>
    have := decideDistinct rest
    inferInstanceAs (Decidable (name ∉ rest.names ∧ rest.Distinct))
  | directory name inner rest =>
    have := decideDistinct inner
    have := decideDistinct rest
    inferInstanceAs (Decidable (name ∉ rest.names ∧ inner.Distinct ∧ rest.Distinct))

instance : DecidablePred Distinct := decideDistinct

def cons (name : Name) (node : Node) (rest : Listing) : Listing :=
  match node with
  | .leaf item => leaf name item rest
  | .directory inner => directory name inner rest

def find? (name : Name) : Listing → Option Node
  | nil => none
  | leaf head item rest => if head = name then some (.leaf item) else rest.find? name
  | directory head inner rest => if head = name then some (.directory inner) else rest.find? name

def put (name : Name) (node : Node) : Listing → Listing
  | nil => cons name node nil
  | leaf head item rest =>
    if head = name then cons name node rest else leaf head item (rest.put name node)
  | directory head inner rest =>
    if head = name then cons name node rest else directory head inner (rest.put name node)

def erase (name : Name) : Listing → Listing
  | nil => nil
  | leaf head item rest => if head = name then rest else leaf head item (rest.erase name)
  | directory head inner rest =>
    if head = name then rest else directory head inner (rest.erase name)

end Listing

namespace Node

def Distinct : Node → Prop
  | leaf _ => True
  | directory inner => inner.Distinct

theorem distinct_leaf (item : Leaf) : (leaf item).Distinct := trivial

theorem distinct_emptyDirectory : (directory .nil).Distinct := trivial

def at? : Node → Location → Option Node
  | node, [] => some node
  | leaf _, _ :: _ => none
  | directory inner, name :: rest =>
    match inner.find? name with
    | none => none
    | some node => node.at? rest

theorem at?_append (node : Node) (first second : Location) :
    node.at? (first ++ second) = (node.at? first).bind (·.at? second) := by
  induction first generalizing node with
  | nil => simp [at?]
  | cons name rest ih =>
    cases node with
    | leaf item => simp [at?]
    | directory inner =>
      simp only [List.cons_append, at?]
      cases inner.find? name with
      | none => rfl
      | some below => exact ih below

end Node

namespace Listing

@[simp] theorem names_cons (name : Name) (node : Node) (rest : Listing) :
    (cons name node rest).names = name :: rest.names := by
  cases node <;> rfl

@[simp] theorem distinct_cons (name : Name) (node : Node) (rest : Listing) :
    (cons name node rest).Distinct ↔ name ∉ rest.names ∧ node.Distinct ∧ rest.Distinct := by
  cases node <;> simp [cons, Distinct, Node.Distinct]

@[simp] theorem find?_cons (name wanted : Name) (node : Node) (rest : Listing) :
    (cons name node rest).find? wanted =
      if name = wanted then some node else rest.find? wanted := by
  cases node <;> rfl

theorem find?_put (name wanted : Name) (node : Node) (listing : Listing) :
    (listing.put name node).find? wanted =
      if name = wanted then some node else listing.find? wanted := by
  induction listing with
  | nil => simp [put, find?]
  | leaf head item rest ih =>
    by_cases same : head = name
    next => subst same; by_cases found : head = wanted <;> simp [put, find?, found]
    next =>
      by_cases found : head = wanted
      next => subst found; simp [put, find?, same, Ne.symm same]
      next => simp [put, find?, same, found, ih]
  | directory head inner rest _ ih =>
    by_cases same : head = name
    next => subst same; by_cases found : head = wanted <;> simp [put, find?, found]
    next =>
      by_cases found : head = wanted
      next => subst found; simp [put, find?, same, Ne.symm same]
      next => simp [put, find?, same, found, ih]

theorem mem_names_put (name other : Name) (node : Node) (listing : Listing) :
    other ∈ (listing.put name node).names ↔ other = name ∨ other ∈ listing.names := by
  induction listing with
  | nil => simp [put, names]
  | leaf head item rest ih =>
    by_cases same : head = name
    next => simp [put, names, same]
    next => simp [put, names, same, ih]; grind
  | directory head inner rest _ ih =>
    by_cases same : head = name
    next => simp [put, names, same]
    next => simp [put, names, same, ih]; grind

theorem Distinct.put {listing : Listing} (distinct : listing.Distinct) (name : Name) {node : Node}
    (nodeDistinct : node.Distinct) : (listing.put name node).Distinct := by
  induction listing with
  | nil => simp [Listing.put, names, nodeDistinct, Distinct]
  | leaf head item rest ih =>
    obtain ⟨absent, restDistinct⟩ := distinct
    by_cases same : head = name
    next => subst same; simp [Listing.put, nodeDistinct, restDistinct, absent]
    next => simp [Listing.put, same, Distinct, mem_names_put, absent, ih restDistinct]
  | directory head inner rest _ ih =>
    obtain ⟨absent, innerDistinct, restDistinct⟩ := distinct
    by_cases same : head = name
    next => subst same; simp [Listing.put, nodeDistinct, restDistinct, absent]
    next =>
      simp [Listing.put, same, Distinct, mem_names_put, absent, innerDistinct, ih restDistinct]

theorem mem_names_of_mem_names_erase {name other : Name} {listing : Listing}
    (member : other ∈ (listing.erase name).names) : other ∈ listing.names := by
  induction listing with
  | nil => exact member
  | leaf head item rest ih =>
    by_cases same : head = name
    next => simp only [erase, same, if_true] at member; exact List.mem_cons_of_mem _ member
    next =>
      simp only [erase, same, if_false, names, List.mem_cons] at member ⊢
      exact member.imp_right ih
  | directory head inner rest _ ih =>
    by_cases same : head = name
    next => simp only [erase, same, if_true] at member; exact List.mem_cons_of_mem _ member
    next =>
      simp only [erase, same, if_false, names, List.mem_cons] at member ⊢
      exact member.imp_right ih

theorem Distinct.erase {listing : Listing} (distinct : listing.Distinct) (name : Name) :
    (listing.erase name).Distinct := by
  induction listing with
  | nil => trivial
  | leaf head item rest ih =>
    obtain ⟨absent, restDistinct⟩ := distinct
    by_cases same : head = name
    next => simpa [Listing.erase, same] using restDistinct
    next =>
      simp only [Listing.erase, same, if_false]
      exact ⟨fun member => absent (mem_names_of_mem_names_erase member), ih restDistinct⟩
  | directory head inner rest _ ih =>
    obtain ⟨absent, innerDistinct, restDistinct⟩ := distinct
    by_cases same : head = name
    next => simpa [Listing.erase, same] using restDistinct
    next =>
      simp only [Listing.erase, same, if_false]
      exact ⟨fun member => absent (mem_names_of_mem_names_erase member), innerDistinct,
        ih restDistinct⟩

theorem Distinct.of_find? {listing : Listing} (distinct : listing.Distinct) {name : Name}
    {node : Node} (found : listing.find? name = some node) : node.Distinct := by
  induction listing with
  | nil => simp [find?] at found
  | leaf head item rest ih =>
    simp only [find?] at found
    split at found
    next => rw [Option.some.injEq] at found; subst found; trivial
    next => exact ih distinct.2 found
  | directory head inner rest _ ih =>
    simp only [find?] at found
    split at found
    next => rw [Option.some.injEq] at found; subst found; exact distinct.2.1
    next => exact ih distinct.2.2 found

def putAt (node : Node) : Location → Listing → Listing
  | [], listing => listing
  | [name], listing => listing.put name node
  | name :: next :: rest, listing =>
    match listing.find? name with
    | none => listing.put name (.directory (nil.putAt node (next :: rest)))
    | some (.leaf _) => listing
    | some (.directory inner) => listing.put name (.directory (inner.putAt node (next :: rest)))

def removeAt : Location → Listing → Listing
  | [], listing => listing
  | [name], listing => listing.erase name
  | name :: next :: rest, listing =>
    match listing.find? name with
    | some (.directory inner) => listing.put name (.directory (inner.removeAt (next :: rest)))
    | _ => listing

theorem Distinct.putAt {listing : Listing} (distinct : listing.Distinct) {node : Node}
    (nodeDistinct : node.Distinct) (location : Location) :
    (listing.putAt node location).Distinct := by
  induction location generalizing listing with
  | nil => exact distinct
  | cons name rest ih =>
    cases rest with
    | nil => exact distinct.put name nodeDistinct
    | cons next rest =>
      simp only [Listing.putAt]
      split
      next => exact distinct.put name (ih trivial)
      next => exact distinct
      next inner found => exact distinct.put name (ih (distinct.of_find? found))

theorem Distinct.removeAt {listing : Listing} (distinct : listing.Distinct)
    (location : Location) : (listing.removeAt location).Distinct := by
  induction location generalizing listing with
  | nil => exact distinct
  | cons name rest ih =>
    cases rest with
    | nil => exact distinct.erase name
    | cons next rest =>
      simp only [Listing.removeAt]
      split
      next inner found => exact distinct.put name (ih (distinct.of_find? found))
      next => exact distinct

end Listing

end SourceBook
