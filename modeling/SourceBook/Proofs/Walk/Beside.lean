import SourceBook.Proofs.FileSystem.Beside
import SourceBook.Proofs.Walk.Entries

set_option autoImplicit false

namespace SourceBook

namespace FileSystem

section Root

variable {files : FileSystem} {root : Bytes} {base : Location} {inner : Listing}
  (resolved : files.lookUp root = .ok (.directory base inner))

include resolved

variable {others : FileSystem} {target : Location} (same : files.SameBut target others)

include same

theorem Reached.opened_sameBut {names : Location} {node : Node}
    (reached : files.Reached root base names node) :
    ∀ above, above ≠ [] → above <+: names → above ≠ names →
      ∃ outer, others.at? (base ++ above) = some (.directory outer) ∧
        others.openDirectory (Path.joinAll root above) = .ok outer := by
  intro above nonempty start proper
  obtain ⟨listing, stands, opens⟩ := reached.opened above nonempty start proper
  obtain ⟨location, found⟩ := openDirectory_eq_ok_iff.1 opens
  obtain ⟨_, resolvedToo⟩ := lookUp_directory_of_sameBut same resolved
  obtain ⟨outer, standsToo⟩ := same.top.directory stands
  obtain ⟨opened, foundToo⟩ := lookUp_directory_of_sameBut same found
  have opensToo := openDirectory_eq_ok_iff.2 ⟨location, foundToo⟩
  exact ⟨outer, standsToo, openDirectory_joinAll resolvedToo opensToo standsToo ▸ opensToo⟩

theorem Matches.sameBut {extension : String} {names : Location}
    (found : files.Matches root base extension names)
    (kept : base ++ names = target → ∃ data, others.at? target = some (.leaf (.file data))) :
    others.Matches root base extension names := by
  obtain ⟨parents, name, item, rfl, reached, suffix, noDirectory⟩ := found
  have opened := reached.opened_sameBut resolved same
  by_cases here : base ++ (parents ++ [name]) = target
  next =>
    obtain ⟨data, stands⟩ := kept here
    exact ⟨parents, name, .file data, rfl, ⟨reached.nonempty, here ▸ stands, opened⟩, suffix, nofun⟩
  next =>
    have stands := same.top.leaf here reached.stands
    refine ⟨parents, name, item, rfl, ⟨reached.nonempty, stands, opened⟩, suffix, ?_⟩
    intro path isLink location outer foundToo
    obtain ⟨inner, found⟩ := lookUp_directory_of_sameBut same.symm foundToo
    exact noDirectory path isLink location inner found

end Root

end FileSystem

end SourceBook
