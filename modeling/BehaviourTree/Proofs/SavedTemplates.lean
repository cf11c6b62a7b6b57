import BehaviourTree.Document.File
import BehaviourTree.Proofs.Folders
import BehaviourTree.Proofs.Shown
import BehaviourTree.Proofs.UuidText

/-!
A template that has been saved is loaded again as it was. What is left out on writing is what stands
in for it on reading.
-/

namespace BehaviourTree

variable {V : Type} {d : Dialect V} {v : V}

def Vec2.IsFinite (p : Vec2) : Prop := p.x.isFinite ∧ p.y.isFinite

/-- The parts of an authored node as they are written. -/
def NodeTemplate.writtenParts (a : NodeTemplate) : List (String × Document) :=
  [("guid", a.guid.toDocument), ("kind", .text a.kind)] ++
    (a.name.map fun n => ("name", .text n)).toList ++
    [("always_check", .flag a.alwaysCheck), ("position", a.position.toDocument)] ++
    if a.children.isEmpty then [] else [("children", .list (a.children.map (·.toDocument)))]

theorem NodeTemplate.toDocument_eq (a : NodeTemplate) : a.toDocument = .record a.writtenParts := rfl

/-! ### Documents that any format is made for -/

theorem NodeId.carriable (id : NodeId) : id.toDocument.Carriable := .text _

theorem Vec2.carriable {p : Vec2} (h : p.IsFinite) : p.toDocument.Carriable := by
  refine .record (by simp) ?_
  rw [List.forall_mem_cons, List.forall_mem_singleton]
  exact ⟨.single h.1, .single h.2⟩

theorem NodeTemplate.carriable {a : NodeTemplate} (h : a.position.IsFinite) :
    a.toDocument.Carriable := by
  have hname : ∀ part ∈ (a.name.map fun n => ("name", Document.text n)).toList,
      part.2.Carriable := by
    cases a.name with
    | none => exact List.forall_mem_nil _
    | some n => exact List.forall_mem_singleton.mpr (.text n)
  have hids : ∀ item ∈ a.children.map (·.toDocument), item.Carriable := by
    intro item hitem
    obtain ⟨id, -, rfl⟩ := List.mem_map.mp hitem
    exact id.carriable
  rw [toDocument_eq]
  refine .record ?_ ?_
  · rw [writtenParts]
    cases a.name <;> cases a.children <;> simp
  · rw [writtenParts, List.forall_mem_append, List.forall_mem_append, List.forall_mem_append]
    refine ⟨⟨⟨?_, hname⟩, ?_⟩, ?_⟩
    · exact List.forall_mem_cons.mpr ⟨a.guid.carriable, List.forall_mem_singleton.mpr (.text _)⟩
    · exact List.forall_mem_cons.mpr ⟨.flag _, List.forall_mem_singleton.mpr (Vec2.carriable h)⟩
    · split
      · exact List.forall_mem_nil _
      · exact List.forall_mem_singleton.mpr (.list hids)

theorem TreeTemplate.carriable {t : TreeTemplate} (h : ∀ a ∈ t.nodes, a.position.IsFinite) :
    t.toDocument.Carriable := by
  refine .record (by simp) (List.forall_mem_singleton.mpr (.list fun item hitem => ?_))
  obtain ⟨a, ha, rfl⟩ := List.mem_map.mp hitem
  exact NodeTemplate.carriable (h a ha)

/-! ### Reading what has been written -/

theorem NodeId.read_of_shows {id : NodeId} (h : d.shows .single v id.toDocument) :
    NodeId.read d v = some id := by
  have htext : d.text v = some id.uuid.text := (Dialect.shows_text_iff.mp h).1
  rw [NodeId.read, Uuid.read, htext, Option.bind_eq_bind, Option.bind_some, Uuid.ofText?_text]
  rfl

theorem Vec2.read_of_shows {p : Vec2} (h : d.shows Vec2.shape v p.toDocument) :
    Vec2.read d v = some p := by
  obtain ⟨vs, hrecord, hparts⟩ := Dialect.shows_record_iff.mp h
  obtain ⟨x, vs, rfl, hx, hparts⟩ := Dialect.showsParts_cons_iff.mp hparts
  obtain ⟨y, vs, rfl, hy, hparts⟩ := Dialect.showsParts_cons_iff.mp hparts
  cases Dialect.showsParts_nil_iff.mp hparts
  have hx : required d.single x = some p.x :=
    Dialect.required_eq_of_both hx fun v hv => Dialect.shows_single_iff.mp hv
  have hy : required d.single y = some p.y :=
    Dialect.required_eq_of_both hy fun v hv => Dialect.shows_single_iff.mp hv
  have hrecord : d.record parts v = some [x, y] := hrecord
  simp [read, hrecord, hx, hy]

namespace NodeTemplate

theorem lookup_name (a : NodeTemplate) : a.writtenParts.lookup "name" = a.name.map .text := by
  rw [writtenParts]
  cases a.name <;> cases a.children <;> rfl

theorem lookup_check (a : NodeTemplate) :
    a.writtenParts.lookup "always_check" = some (.flag a.alwaysCheck) := by
  rw [writtenParts]
  cases a.name <;> rfl

theorem lookup_position (a : NodeTemplate) :
    a.writtenParts.lookup "position" = some a.position.toDocument := by
  rw [writtenParts]
  cases a.name <;> rfl

theorem lookup_children (a : NodeTemplate) : a.writtenParts.lookup "children" =
    if a.children.isEmpty then none else some (.list (a.children.map (·.toDocument))) := by
  rw [writtenParts]
  cases a.name <;> cases a.children <;> rfl

/-- A name as it is read: none where the value is nothing. -/
def readName (d : Dialect V) (v : V) : Option (Option String) := do
  match ← d.optional v with
  | none => pure none
  | some v => some <$> d.text v

theorem readName_of_shows {s : String} (h : d.shows .single v (.text s)) :
    readName d v = some (some s) := by
  have hoptional : (d.optional v).join.bind d.text = some s := (Dialect.shows_text_iff.mp h).2
  obtain ⟨w, hw, htext⟩ := Option.bind_eq_some_iff.mp hoptional
  rw [readName, Option.join_eq_some_iff.mp hw, Option.bind_eq_bind, Option.bind_some]
  simp [htext]

/-! A part that is left out has to be the very value that stands in for it. -/

variable {a : NodeTemplate} {part : Option V}

theorem name_of_both (h : Dialect.both (d.shows .single) part (a.writtenParts.lookup "name")) :
    defaulting none (readName d) part = some a.name := by
  rw [lookup_name] at h
  refine Dialect.defaulting_eq_of_both h (fun hnone => ?_) fun doc hdoc v hv => ?_
  · exact (Option.map_eq_none_iff.mp hnone).symm
  · obtain ⟨n, hn, rfl⟩ := Option.map_eq_some_iff.mp hdoc
    rw [readName_of_shows hv, hn]

theorem check_of_both
    (h : Dialect.both (d.shows .single) part (a.writtenParts.lookup "always_check")) :
    defaulting false d.flag part = some a.alwaysCheck := by
  rw [lookup_check] at h
  refine Dialect.defaulting_eq_of_both h (fun hnone => nomatch hnone) fun doc hdoc v hv => ?_
  cases hdoc
  exact Dialect.shows_flag_iff.mp hv

theorem position_of_both
    (h : Dialect.both (d.shows Vec2.shape) part (a.writtenParts.lookup "position")) :
    defaulting .zero (Vec2.read d) part = some a.position := by
  rw [lookup_position] at h
  refine Dialect.defaulting_eq_of_both h (fun hnone => nomatch hnone) fun doc hdoc v hv => ?_
  cases hdoc
  exact Vec2.read_of_shows hv

theorem children_of_both
    (h : Dialect.both (d.shows (.list .single)) part (a.writtenParts.lookup "children")) :
    defaulting [] (d.each (NodeId.read d)) part = some a.children := by
  rw [lookup_children] at h
  refine Dialect.defaulting_eq_of_both h (fun hnone => ?_) fun doc hdoc v hv => ?_
  · split at hnone
    · exact (List.isEmpty_iff.mp ‹_›).symm
    · cases hnone
  · split at hdoc
    · cases hdoc
    · cases hdoc
      exact Dialect.each_eq_of_shows hv fun id _ v hid => NodeId.read_of_shows hid

theorem read_of_shows (h : d.shows NodeTemplate.shape v a.toDocument) :
    NodeTemplate.read d v = some a := by
  rw [toDocument_eq] at h
  obtain ⟨vs, hrecord, hparts⟩ := Dialect.shows_record_iff.mp h
  obtain ⟨guid, vs, rfl, hguid, hparts⟩ := Dialect.showsParts_cons_iff.mp hparts
  obtain ⟨kind, vs, rfl, hkind, hparts⟩ := Dialect.showsParts_cons_iff.mp hparts
  obtain ⟨name, vs, rfl, hname, hparts⟩ := Dialect.showsParts_cons_iff.mp hparts
  obtain ⟨check, vs, rfl, hcheck, hparts⟩ := Dialect.showsParts_cons_iff.mp hparts
  obtain ⟨position, vs, rfl, hposition, hparts⟩ := Dialect.showsParts_cons_iff.mp hparts
  obtain ⟨children, vs, rfl, hchildren, hparts⟩ := Dialect.showsParts_cons_iff.mp hparts
  cases Dialect.showsParts_nil_iff.mp hparts
  have hguid : required (NodeId.read d) guid = some a.guid :=
    Dialect.required_eq_of_both hguid fun v hv => NodeId.read_of_shows hv
  have hkind : required d.text kind = some a.kind :=
    Dialect.required_eq_of_both hkind fun v hv => (Dialect.shows_text_iff.mp hv).1
  have hrecord : d.record parts v = some [guid, kind, name, check, position, children] := hrecord
  calc NodeTemplate.read d v
    _ = (do pure ⟨← required (NodeId.read d) guid, ← required d.text kind,
          ← defaulting none (readName d) name, ← defaulting false d.flag check,
          ← defaulting .zero (Vec2.read d) position,
          ← defaulting [] (d.each (NodeId.read d)) children⟩) := by
      rw [NodeTemplate.read, hrecord]; rfl
    _ = some a := by
      rw [hguid, hkind, name_of_both hname, check_of_both hcheck, position_of_both hposition,
        children_of_both hchildren]
      rfl

end NodeTemplate

namespace TreeTemplate

theorem read_of_shows {t : TreeTemplate} (h : d.shows TreeTemplate.shape v t.toDocument) :
    TreeTemplate.read d v = some t := by
  obtain ⟨vs, hrecord, hparts⟩ := Dialect.shows_record_iff.mp h
  obtain ⟨nodes, vs, rfl, hnodes, hparts⟩ := Dialect.showsParts_cons_iff.mp hparts
  cases Dialect.showsParts_nil_iff.mp hparts
  have hnodes : defaulting [] (d.each (NodeTemplate.read d)) nodes = some t.nodes := by
    refine Dialect.defaulting_eq_of_both hnodes (fun hnone => nomatch hnone) fun doc hdoc v hv => ?_
    cases hdoc
    exact Dialect.each_eq_of_shows hv fun a _ v ha => NodeTemplate.read_of_shows ha
  have hrecord : d.record ["nodes"] v = some [nodes] := hrecord
  simp [TreeTemplate.read, hrecord, hnodes]

end TreeTemplate

/-! ### Formats and extensions -/

/-- A root with an empty name and a child that is not there. -/
def Demo.plan : TreeTemplate := ⟨[⟨⟨.ofNat 1⟩, "Root", some "", true, ⟨1.5, 0⟩, [⟨.ofNat 2⟩]⟩]⟩

end BehaviourTree
