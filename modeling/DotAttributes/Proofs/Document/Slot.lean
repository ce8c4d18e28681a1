import DotAttributes.Proofs.Document.Position
import Mathlib.Data.List.Basic

/-!
# Slots of attributes

A slot is an attribute together with everything around it: the attributes it is written with,
and the position of its statement. `Document.slots` lists the slots of the attributes that the
walk visits, in its order (`map_visit_slots`); each of them is a slot of that document
(`mem_slots`). `Slot.withValue` writes another value into the attribute and leaves its span
and everything around it alone.
-/

namespace DotAttributes

/-! ## Attributes in lists -/

namespace AttributeList

/-- All ways to pick an attribute out of a list: those in front of it, itself, those behind. -/
def picks : AttributeList → List (AttributeList × Attribute × AttributeList)
  | [] => []
  | a :: rest => ([], a, rest) :: (picks rest).map fun (front, b, back) => (a :: front, b, back)

theorem eq_of_mem_picks {attrs front back : AttributeList} {a : Attribute}
    (h : (front, a, back) ∈ attrs.picks) : front ++ a :: back = attrs := by
  induction attrs generalizing front with
  | nil => cases h
  | cons b rest ih =>
    rcases List.mem_cons.1 h with h | h
    · cases h
      rfl
    · obtain ⟨⟨front', a', back'⟩, hpick, heq⟩ := List.mem_map.1 h
      cases heq
      rw [List.cons_append, ih hpick]

/-- Every attribute is picked once. -/
theorem map_picks (attrs : AttributeList) : attrs.picks.map (fun pick => pick.2.1) = attrs := by
  induction attrs with
  | nil => rfl
  | cons a rest ih =>
    rw [picks, List.map_cons, List.map_map]
    exact congrArg (a :: ·) ih

end AttributeList

/-! ## Statements without an attribute -/

/-- A statement without one of its attributes. -/
inductive Frame
  /-- an assignment -/
  | assign
  /-- a block of defaults with the other attributes in front and behind -/
  | defaults (target : DefaultTarget) (front back : AttributeList)
  /-- an element with the other attributes in front and behind -/
  | element (element : Element) (front back : AttributeList)

namespace Frame

/-- The statement with an attribute in the free place. -/
def fill : Frame → Attribute → Statement
  | assign, a => .assign a
  | defaults target front back, a => .defaults ⟨target, front ++ a :: back⟩
  | element e front back, a => .element { e with attributes := front ++ a :: back }

/-- The attribute is visited: it belongs to a node, an edge, a block or a graph. -/
def IsVisited : Frame → Prop
  | assign | defaults .. => True
  | element e _ _ => e.kind.isGraphLike = false

/-- The site of an attribute in the free place, in the body of a graph of the given kind to
which the attributes `assigned` are assigned. -/
def site (kind : ElementKind) (assigned : AttributeList) (scope : Scope) : Frame → Attribute → Site
  | assign, _ => ⟨kind, assigned, scope⟩
  | defaults target front back, a => ⟨target.kindIn kind, front ++ a :: back, scope⟩
  | element e front back, a => ⟨e.kind, front ++ a :: back, scope⟩

end Frame

/-! ## Slots -/

/-- An attribute at its place in a document. -/
structure Slot where
  hole : Hole
  before : List Statement
  frame : Frame
  attr : Attribute
  after : List Statement

namespace Slot

/-- The body in which the attribute stands. -/
def body (slot : Slot) : List Statement :=
  slot.before ++ slot.frame.fill slot.attr :: slot.after

/-- The document in which the attribute stands. -/
def document (slot : Slot) : Document := slot.hole.fill slot.body

/-- The visit of the attribute at its site. -/
def visit (slot : Slot) : Visit :=
  let scope := slot.hole.scope.after slot.before
  .attr (slot.frame.site slot.hole.kind (assignments slot.body) scope slot.attr) slot.attr

/-- Another value for the attribute. Its span and everything around it stay. -/
def withValue (slot : Slot) (value : String) : Slot :=
  { slot with attr := { slot.attr with value := value } }

end Slot

/-- The slots of a group of attributes that are written together in the statement. -/
def Position.slotsOf (p : Position) (frame : AttributeList → AttributeList → Frame)
    (attrs : AttributeList) : List Slot :=
  attrs.picks.map fun (front, a, back) => ⟨p.hole, p.before, frame front back, a, p.after⟩

/-- The slots of the visited attributes of the statement itself. -/
def Position.slots (p : Position) : List Slot :=
  match p.statement with
  | .assign a => [⟨p.hole, p.before, .assign, a, p.after⟩]
  | .defaults block => p.slotsOf (.defaults block.target) block.attributes
  | .element element =>
    if element.kind.isGraphLike then [] else p.slotsOf (.element element) element.attributes

/-- The slots of the visited attributes of a document, in the order of the walk. -/
def Document.slots (document : Document) : List Slot := document.positions.flatMap Position.slots

/-! ## Slots and positions -/

namespace Position

theorem mem_slotsOf {p : Position} {frame : AttributeList → AttributeList → Frame}
    {attrs : AttributeList} {slot : Slot} (h : slot ∈ p.slotsOf frame attrs) :
    ∃ front a back, front ++ a :: back = attrs ∧
      slot = ⟨p.hole, p.before, frame front back, a, p.after⟩ := by
  obtain ⟨⟨front, a, back⟩, hpick, rfl⟩ := List.mem_map.1 h
  exact ⟨front, a, back, AttributeList.eq_of_mem_picks hpick, rfl⟩

/-- The slots of a statement are slots of its document, in the same hole. -/
theorem mem_slots {p : Position} {slot : Slot} (h : slot ∈ p.slots) :
    slot.hole = p.hole ∧ slot.document = p.document ∧ slot.frame.IsVisited := by
  obtain ⟨hole, before, statement, after⟩ := p
  cases statement with
  | assign a =>
    rw [List.mem_singleton.1 h]
    exact ⟨rfl, rfl, trivial⟩
  | defaults block =>
    obtain ⟨front, a, back, hattrs, rfl⟩ := mem_slotsOf h
    obtain ⟨target, _⟩ := block
    cases hattrs
    exact ⟨rfl, rfl, trivial⟩
  | element element =>
    simp only [slots] at h
    split at h
    · cases h
    · next hkind =>
      obtain ⟨front, a, back, hattrs, rfl⟩ := mem_slotsOf h
      obtain ⟨_, _, _, _, _, _, _⟩ := element
      cases hattrs
      exact ⟨rfl, rfl, Bool.eq_false_iff.2 hkind⟩

/-- The slots of a group of attributes are visited as the group is. -/
theorem map_visit_slotsOf (p : Position) (frame : AttributeList → AttributeList → Frame)
    (attrs : AttributeList) (kind : ElementKind)
    (hvisit : ∀ front a back, front ++ a :: back = attrs →
      Slot.visit ⟨p.hole, p.before, frame front back, a, p.after⟩ =
        .attr ⟨kind, attrs, p.scope⟩ a) :
    (p.slotsOf frame attrs).map Slot.visit = Site.visits ⟨kind, attrs, p.scope⟩ := by
  let site : Site := ⟨kind, attrs, p.scope⟩
  calc (p.slotsOf frame attrs).map Slot.visit
      = attrs.picks.map fun pick => .attr site pick.2.1 := by
        rw [slotsOf, List.map_map]
        exact List.map_congr_left fun ⟨front, a, back⟩ hpick =>
          hvisit front a back (AttributeList.eq_of_mem_picks hpick)
    _ = (attrs.picks.map fun pick => pick.2.1).map (.attr site) := List.map_map.symm
    _ = site.visits := by rw [AttributeList.map_picks]; rfl

end Position

/-- Whether an attribute is visited, and not an operator. -/
def Visit.isAttribute : Visit → Bool
  | attr .. => true
  | operator .. => false

theorem filter_isAttribute_siteVisits (site : Site) :
    site.visits.filter Visit.isAttribute = site.visits := by
  refine List.filter_eq_self.2 fun visit hvisit => ?_
  obtain ⟨a, -, rfl⟩ := List.mem_map.1 hvisit
  rfl

/-- The slots of a statement are what is visited of its attributes. -/
theorem Position.map_visit_slots (p : Position) :
    p.slots.map Slot.visit = p.visits.filter Visit.isAttribute := by
  obtain ⟨hole, before, statement, after⟩ := p
  cases statement with
  | assign a => rfl
  | defaults block =>
    let p : Position := ⟨hole, before, .defaults block, after⟩
    refine Eq.trans ?_ (filter_isAttribute_siteVisits _).symm
    exact p.map_visit_slotsOf _ _ _ fun front a back hattrs => by rw [← hattrs]; rfl
  | element element =>
    let p : Position := ⟨hole, before, .element element, after⟩
    have hslots := p.map_visit_slotsOf (.element element) element.attributes element.kind
      fun front a back hattrs => by rw [← hattrs]; rfl
    have hoperators : (element.operators.map (.operator hole.directed)).filter Visit.isAttribute =
        [] := by
      simp [List.filter_map, Visit.isAttribute, Function.comp_def]
    simp only [slots, visits, Element.ownVisits]
    cases hkind : element.kind with
    | node =>
      rw [hkind] at hslots
      rw [filter_isAttribute_siteVisits]
      exact hslots
    | edge =>
      rw [hkind] at hslots
      rw [List.filter_append, hoperators, filter_isAttribute_siteVisits]
      exact hslots
    | graph | subgraph | cluster => rfl

/-! ## Slots of documents -/

namespace Document

variable {document : Document}

/-- The slots of a document are what the walk visits of its attributes, in the same order. -/
theorem map_visit_slots (document : Document) :
    document.slots.map Slot.visit = document.visits.filter Visit.isAttribute := by
  rw [visits_eq_flatMap, slots, List.map_flatMap, List.filter_flatMap]
  exact List.flatMap_congr fun p _ => p.map_visit_slots

/-- The slots of a document are slots of that document that the walk comes to. -/
theorem mem_slots {slot : Slot} (h : slot ∈ document.slots) :
    slot.document = document ∧ slot.hole.IsWalked ∧ slot.frame.IsVisited := by
  obtain ⟨p, hp, hslot⟩ := List.mem_flatMap.1 h
  obtain ⟨hhole, hdocument, hvisited⟩ := Position.mem_slots hslot
  obtain ⟨hwalked, hp⟩ := mem_positions p hp
  exact ⟨hdocument.trans hp, hhole ▸ hwalked, hvisited⟩

end Document

end DotAttributes
