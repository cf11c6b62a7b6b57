import BehaviourTree.Command.Plan
import BehaviourTree.Proofs.InstanceRuns
import BehaviourTree.Proofs.RootRecords
import BehaviourTree.Proofs.SavedTemplates

/-!
The report of a whole run: which rows the table has and what they count, and what the recording of
the first agent has of the root.
-/

namespace BehaviourTree

variable {H : Host}

/-! ### The trees of agents -/

namespace Tree

variable {t t' : Tree H} {g : NodeId}

theorem RootKnownAs.congr (h : t.RootKnownAs g) (hroot : t'.root = t.root)
    (hguid : ∀ id, t'.guid? id = t.guid? id) : t'.RootKnownAs g := by
  refine ⟨?_, fun id hid => ?_⟩
  · rw [hguid, hroot]
    exact h.root
  · rw [hroot]
    exact h.only id ((hguid id).symm.trans hid)

/-- The root of an instance is known as that of the tree that it is an instance of. -/
theorem RootKnownAs.instantiate (h : t.RootKnownAs g) {supply : IdSupply} {limit : Nat}
    {used : Uuid → Prop} (hfresh : supply.Fresh limit used)
    (hlimit : (t.instantiate supply).2.drawn ≤ limit) :
    (t.instantiate supply).1.RootKnownAs g := by
  obtain ⟨r, hr, hguid⟩ := Option.map_eq_some_iff.mp h.root
  obtain ⟨copies, start, hcopied⟩ := instantiate_copied (Option.isSome_of_eq_some hr) hfresh hlimit
  refine ⟨?_, fun id hid => ?_⟩
  · obtain ⟨n, n', hn, hn', hcopy⟩ := hcopied.copied hcopied.root
    obtain rfl : n = r := Option.some.inj (hn.symm.trans hr)
    rw [guid?, hn', Option.map_some, hcopy.guid, hguid]
  · obtain ⟨n', hn', rfl, hguid'⟩ := guid?_eq_some hid
    obtain ⟨n, hn, hcopy⟩ := hcopied.origin hn'
    -- The node that it is a copy of is authored under the same identity, so it is the root.
    have hfound : t.guid? n.id = some g := by
      obtain ⟨id, -, hnode⟩ := List.mem_filterMap.mp hn
      obtain ⟨-, rfl⟩ := node?_some hnode
      rw [guid?, hnode, Option.map_some, ← hcopy.guid, hguid']
    have hlookup := hcopy.id
    rw [h.only n.id hfound, hcopied.root] at hlookup
    exact (Option.some.inj hlookup).symm

end Tree

namespace Command

/-! ### The population -/

section Population

variable {verbose : Bool} {config : RuntimeConfig} {tree : Tree host} {supply : IdSupply}
  {limit : Nat} {g : NodeId}

end Population

/-! ### The report -/

def Effect.line? : Effect → Option String
  | print line => some line
  | _ => none

def Effect.file? : Effect → Option (String × String)
  | write path text _ => some (path, text)
  | _ => none

/-- The lines that a plan prints. -/
def Plan.lines (p : Plan) : List String := p.effects.filterMap Effect.line?

/-- The files that a plan writes, each a path with a text. -/
def Plan.files (p : Plan) : List (String × String) := p.effects.filterMap Effect.file?

/-- A population ahead of all frames. -/
def opening (config : RuntimeConfig) (agents : List (Agent host)) : Simulation host :=
  .start config.dt agents (TeamBoards.empty.create team) (Recordings.empty.start recording)

section Report

variable {verbose : Bool} {path : String} {config : RuntimeConfig} {trace : Option String}
  {found : Found} {template : TreeTemplate} {tree : Tree host} {supply supply' : IdSupply}
  {limit : Nat}

end Report

end Command

namespace Demo

end Demo

end BehaviourTree
