import Mathlib.Data.List.Basic
import Mathlib.Data.List.Nodup
import QDaemon.Transition.Partial

/-!
# Headed lists with back pointers

A list is a head, which is one link, and nodes with a link to their successor.
Each node also keeps a mark of the place that it is reached from, which is the head
of its list or the link of its predecessor: the place itself, or only the
predecessor.  Nodes that are not allocated cannot be accessed.
-/

namespace QDaemon.Linked

open Option List Function Transition

universe u v w

/-- The address of a link. -/
inductive Place (I : Type u) (N : Type v)
  | head (list : I)
  | next (node : N)
  deriving DecidableEq

/-- The fields of a node. -/
structure Fields (N : Type v) (B : Type w) where
  next : Option N
  back : B

/-- The heads and the nodes. -/
@[ext]
structure Lists (I : Type u) (N : Type v) (B : Type w) where
  first : I → Option N
  node : N → Option (Fields N B)

variable {I : Type u} {N : Type v} {B : Type w} [DecidableEq I] [DecidableEq N]

namespace Lists

/-- Assign to a node. -/
def setNode (lists : Lists I N B) (node : N) (fields : Fields N B) : Lists I N B :=
  { lists with node := update lists.node node (some fields) }

/-- Free a node. -/
def free (lists : Lists I N B) (node : N) : Lists I N B :=
  { lists with node := update lists.node node none }

/-- Read a link. -/
def load (lists : Lists I N B) : Place I N → Option (Option N)
  | .head list => some (lists.first list)
  | .next node => (lists.node node).map Fields.next

/-- Read the back pointer of a node. -/
def backOf (lists : Lists I N B) (node : N) : Option B :=
  (lists.node node).map Fields.back

/-- Assign to a link. -/
def store (lists : Lists I N B) (value : Option N) : Place I N → Option (Lists I N B)
  | .head list => some { lists with first := update lists.first list value }
  | .next node => (lists.node node).map fun fields => lists.setNode node { fields with next := value }

/-- Assign to the back pointer of a node. -/
def setBack (lists : Lists I N B) (node : N) (value : B) : Option (Lists I N B) :=
  (lists.node node).map fun fields => lists.setNode node { fields with back := value }

/-- Assign to the back pointer of a node, if there is one. -/
def setSuccessor (lists : Lists I N B) (value : B) : Option N → Option (Lists I N B)
  | none => some lists
  | some next => lists.setBack next value

/-- Link the successor of a node from the place that the node is reached from,
whose mark is `mark`, and clear the fields of the node. -/
def unlink (lists : Lists I N B) (place : Place I N) (mark cleared : B) (node : N) :
    Option (Lists I N B) :=
  (lists.node node).bind fun fields =>
    (lists.store fields.next place).bind fun lists =>
      (lists.setSuccessor mark fields.next).bind fun lists =>
        (lists.store none (.next node)).bind fun lists => lists.setBack node cleared

/-- The first node of a traversal that meets a condition.  A traversal does not return
if its rounds run out or if it meets a node that is not allocated. -/
def find (lists : Lists I N B) (condition : N → Bool) : Nat → Option N → Option (Option N)
  | 0, _ => none
  | _ + 1, none => some none
  | rounds + 1, some node =>
      match lists.node node with
      | none => none
      | some fields =>
          if condition node then some (some node) else lists.find condition rounds fields.next

/-! ## Links after an assignment -/

variable {lists after : Lists I N B} {node : N} {place : Place I N}
variable {next : N} {other : I} {rounds : Nat}

omit [DecidableEq I] [DecidableEq N] in
theorem isSome_load_next (lists : Lists I N B) (node : N) :
    (lists.load (.next node)).isSome = (lists.backOf node).isSome := by
  rw [load, backOf, isSome_map, isSome_map]

theorem store_spec (allocated : (lists.load place).isSome) (value : Option N) :
    ∃ after, lists.store value place = some after ∧
      (∀ other, after.load other = if other = place then some value else lists.load other) ∧
      ∀ other, after.backOf other = lists.backOf other := by
  cases place with
  | head list =>
    refine ⟨_, rfl, ?_, fun _ => rfl⟩
    intro other
    cases other with
    | head other =>
      simp only [load, update_apply, Place.head.injEq]
      split <;> rfl
    | next other => rfl
  | next node =>
    rw [load, isSome_map] at allocated
    obtain ⟨fields, fieldsEq⟩ := isSome_iff_exists.mp allocated
    refine ⟨lists.setNode node { fields with next := value }, ?_, ?_, ?_⟩
    · rw [store, fieldsEq, map_some]
    · intro other
      cases other with
      | head other => rfl
      | next other =>
        simp only [load, setNode, update_apply, Place.next.injEq]
        split <;> rfl
    · intro other
      simp only [backOf, setNode, update_apply]
      split
      next same => rw [same, fieldsEq, map_some, map_some]
      · rfl

omit [DecidableEq I] in
theorem setBack_spec (allocated : (lists.backOf node).isSome) (value : B) :
    ∃ after, lists.setBack node value = some after ∧
      (∀ other, after.load other = lists.load other) ∧
      ∀ other, after.backOf other = if other = node then some value else lists.backOf other := by
  rw [backOf, isSome_map] at allocated
  obtain ⟨fields, fieldsEq⟩ := isSome_iff_exists.mp allocated
  refine ⟨lists.setNode node { fields with back := value }, ?_, ?_, ?_⟩
  · rw [setBack, fieldsEq, map_some]
  · intro other
    cases other with
    | head other => rfl
    | next other =>
      simp only [load, setNode, update_apply]
      split
      next same => rw [same, fieldsEq, map_some, map_some]
      · rfl
  · intro other
    simp only [backOf, setNode, update_apply]
    split <;> rfl

omit [DecidableEq I] in
theorem setSuccessor_spec (lists : Lists I N B) {successor : Option N}
    (allocated : ∀ next ∈ successor, (lists.backOf next).isSome) (value : B) :
    ∃ after, lists.setSuccessor value successor = some after ∧
      (∀ other, after.load other = lists.load other) ∧
      ∀ other, after.backOf other =
        if some other = successor then some value else lists.backOf other := by
  cases successor with
  | none => exact ⟨lists, rfl, fun _ => rfl, fun _ => by simp⟩
  | some next =>
    simpa [setSuccessor] using setBack_spec (allocated next rfl) value

/-- A node has been taken out: its place links to its successor, which is marked with
that place. -/
structure Unlinked (lists after : Lists I N B) (place : Place I N) (mark cleared : B) (node : N)
    (successor : Option N) : Prop where
  load : ∀ other, after.load other =
    if other = .next node then some none
    else if other = place then some successor else lists.load other
  back : ∀ other, after.backOf other =
    if other = node then some cleared
    else if some other = successor then some mark else lists.backOf other

theorem unlink_spec {successor : Option N} {mark : B} (cleared : B)
    (nextEq : lists.load (.next node) = some successor) (reached : (lists.load place).isSome)
    (allocated : ∀ next ∈ successor, (lists.backOf next).isSome) (apart : place ≠ .next node) :
    ∃ after, lists.unlink place mark cleared node = some after ∧
      Unlinked lists after place mark cleared node successor := by
  obtain ⟨fields, fieldsEq, fieldsNext⟩ := map_eq_some_iff.mp nextEq
  obtain ⟨first, firstEq, firstLoad, firstBack⟩ := store_spec reached successor
  obtain ⟨second, secondEq, secondLoad, secondBack⟩ := first.setSuccessor_spec
    (fun next mem => by rw [firstBack]; exact allocated next mem) mark
  have nodeAllocated : (second.load (.next node)).isSome := by
    rw [secondLoad, firstLoad, if_neg apart.symm, nextEq]
    rfl
  obtain ⟨third, thirdEq, thirdLoad, thirdBack⟩ := store_spec nodeAllocated none
  have backAllocated : (third.backOf node).isSome := by
    rw [← isSome_load_next, thirdLoad, if_pos rfl]
    rfl
  obtain ⟨fourth, fourthEq, fourthLoad, fourthBack⟩ := setBack_spec backAllocated cleared
  refine ⟨fourth, ?_, ?_, ?_⟩
  · simp [unlink, fieldsEq, fieldsNext, firstEq, secondEq, thirdEq, fourthEq]
  · intro other
    rw [fourthLoad, thirdLoad, secondLoad, firstLoad]
  · intro other
    rw [fourthBack, thirdBack, secondBack, firstBack]

/-- What is left of a node that is taken out and then freed does not depend on how its
fields were cleared. -/
theorem unlink_free {mark cleared : B} (unlinked : lists.unlink place mark cleared node = some after) :
    ∃ fields stored linked, lists.node node = some fields ∧
      lists.store fields.next place = some stored ∧
      stored.setSuccessor mark fields.next = some linked ∧ after.free node = linked.free node := by
  obtain ⟨fields, fieldsEq, unlinked⟩ := bind_eq_some_iff.mp unlinked
  obtain ⟨stored, storedEq, unlinked⟩ := bind_eq_some_iff.mp unlinked
  obtain ⟨linked, linkedEq, unlinked⟩ := bind_eq_some_iff.mp unlinked
  obtain ⟨cut, cutEq, unlinked⟩ := bind_eq_some_iff.mp unlinked
  obtain ⟨_, -, rfl⟩ := map_eq_some_iff.mp cutEq
  obtain ⟨_, -, rfl⟩ := map_eq_some_iff.mp unlinked
  refine ⟨fields, stored, linked, fieldsEq, storedEq, linkedEq, ?_⟩
  simp [free, setNode]

/-- A node has been put in front: the old first node is marked with its link. -/
structure AddedHead (mark : Place I N → B) (lists after : Lists I N B) (node : N) (list : I) :
    Prop where
  load : ∀ other, after.load other =
    if other = .head list then some (some node)
    else if other = .next node then some (lists.first list) else lists.load other
  back : ∀ other, after.backOf other =
    if other = node then some (mark (.head list))
    else if some other = lists.first list then some (mark (.next node))
    else lists.backOf other

/-! ## Chains of nodes -/

/-- The places from which the nodes are reached, in order. -/
def places : Place I N → List N → List (Place I N)
  | _, [] => []
  | place, node :: nodes => place :: places (.next node) nodes

/-- The place after the last node. -/
def endPlace : Place I N → List N → Place I N
  | place, [] => place
  | _, node :: nodes => endPlace (.next node) nodes

/-- The nodes are linked from a place on, each pointing back. -/
def Path (mark : Place I N → B) (lists : Lists I N B) : Place I N → List N → Prop
  | _, [] => True
  | place, node :: nodes =>
      lists.load place = some (some node) ∧ lists.backOf node = some (mark place) ∧
        lists.Path mark (.next node) nodes

/-- A chain: a path that ends. -/
def Chain (mark : Place I N → B) (lists : Lists I N B) (place : Place I N) (nodes : List N) :
    Prop :=
  lists.Path mark place nodes ∧ lists.load (endPlace place nodes) = some none

variable {mark : Place I N → B} {nodes front back : List N}

section

omit [DecidableEq I] [DecidableEq N]

theorem endPlace_append (place : Place I N) (front back : List N) :
    endPlace place (front ++ back) = endPlace (endPlace place front) back := by
  induction front generalizing place with
  | nil => rfl
  | cons node front ih => exact ih (.next node)

theorem endPlace_eq (place : Place I N) (nodes : List N) :
    endPlace place nodes = place ∨ ∃ node ∈ nodes, endPlace place nodes = .next node := by
  induction nodes generalizing place with
  | nil => exact .inl rfl
  | cons node nodes ih =>
    apply Or.inr
    rcases ih (.next node) with same | ⟨last, mem, eq⟩
    · exact ⟨node, mem_cons_self, same⟩
    · exact ⟨last, mem_cons_of_mem node mem, eq⟩

theorem mem_places {other : Place I N} (mem : other ∈ places place nodes) :
    other = place ∨ ∃ node ∈ nodes, other = .next node := by
  induction nodes generalizing place with
  | nil => exact absurd mem not_mem_nil
  | cons node nodes ih =>
    rcases mem_cons.mp mem with same | later
    · exact .inl same
    · apply Or.inr
      rcases ih later with same | ⟨next, nextMem, eq⟩
      · exact ⟨node, mem_cons_self, same⟩
      · exact ⟨next, mem_cons_of_mem node nextMem, eq⟩

/-- The place after the last node is not one that a node is reached from. -/
theorem endPlace_not_mem_places (nodup : nodes.Nodup) (outside : ∀ node ∈ nodes, place ≠ .next node) :
    endPlace place nodes ∉ places place nodes := by
  induction nodes generalizing place with
  | nil => exact not_mem_nil
  | cons node nodes ih =>
    obtain ⟨fresh, nodup⟩ := nodup_cons.mp nodup
    intro mem
    rcases mem_cons.mp mem with same | later
    · rcases endPlace_eq (.next node) nodes with eq | ⟨last, lastMem, eq⟩
      · exact outside node mem_cons_self (same.symm.trans eq)
      · exact outside last (mem_cons_of_mem node lastMem) (same.symm.trans eq)
    · refine ih nodup ?_ later
      intro other otherMem same
      exact fresh (Place.next.inj same ▸ otherMem)

theorem path_append : lists.Path mark place (front ++ back) ↔
      lists.Path mark place front ∧ lists.Path mark (endPlace place front) back := by
  induction front generalizing place with
  | nil => exact (and_iff_right trivial).symm
  | cons node front ih =>
    simp [Path, endPlace, ih, and_assoc]

theorem Path.congr (path : lists.Path mark place nodes)
    (loads : ∀ other ∈ places place nodes, after.load other = lists.load other)
    (backs : ∀ node ∈ nodes, after.backOf node = lists.backOf node) :
    after.Path mark place nodes := by
  induction nodes generalizing place with
  | nil => trivial
  | cons node nodes ih =>
    obtain ⟨link, back, rest⟩ := path
    refine ⟨?_, ?_, ih rest ?_ ?_⟩
    · rw [loads place mem_cons_self, link]
    · rw [backs node mem_cons_self, back]
    · intro other mem
      exact loads other (mem_cons_of_mem _ mem)
    · intro other mem
      exact backs other (mem_cons_of_mem _ mem)

/-- A chain whose links and back pointers are left alone. -/
theorem Chain.frame (chain : lists.Chain mark place nodes)
    (link : after.load place = lists.load place)
    (links : ∀ node ∈ nodes, after.load (.next node) = lists.load (.next node))
    (backs : ∀ node ∈ nodes, after.backOf node = lists.backOf node) :
    after.Chain mark place nodes := by
  obtain ⟨path, ends⟩ := chain
  constructor
  · apply path.congr _ backs
    intro other mem
    rcases mem_places mem with rfl | ⟨node, nodeMem, rfl⟩
    · exact link
    · exact links node nodeMem
  · rcases endPlace_eq place nodes with same | ⟨node, mem, same⟩
    · rw [same] at ends ⊢
      rw [link, ends]
    · rw [same] at ends ⊢
      rw [links node mem, ends]

theorem Path.allocated (path : lists.Path mark place nodes) {node : N} (mem : node ∈ nodes) :
    (lists.backOf node).isSome := by
  induction nodes generalizing place with
  | nil => exact absurd mem not_mem_nil
  | cons other nodes ih =>
    rcases mem_cons.mp mem with rfl | later
    · rw [path.2.1]
      rfl
    · exact ih path.2.2 later

theorem Chain.load_eq (chain : lists.Chain mark place nodes) :
    lists.load place = some nodes.head? := by
  cases nodes with
  | nil => exact chain.2
  | cons node nodes => exact chain.1.1

theorem chain_append : lists.Chain mark place (front ++ back) ↔
      lists.Path mark place front ∧ lists.Chain mark (endPlace place front) back := by
  rw [Chain, path_append, endPlace_append, Chain, and_assoc]

end

omit [DecidableEq I] in
/-- The nodes of a chain, now reached from another place. -/
theorem Chain.reroot {target : Place I N} (chain : lists.Chain mark place nodes) (nodup : nodes.Nodup)
    (link : after.load target = some nodes.head?)
    (links : ∀ node ∈ nodes, after.load (.next node) = lists.load (.next node))
    (backs : ∀ node ∈ nodes, after.backOf node =
      if some node = nodes.head? then some (mark target) else lists.backOf node) :
    after.Chain mark target nodes := by
  cases nodes with
  | nil => exact ⟨trivial, link⟩
  | cons first rest =>
    obtain ⟨fresh, -⟩ := nodup_cons.mp nodup
    have restChain : lists.Chain mark (.next first) rest := ⟨chain.1.2.2, chain.2⟩
    have framed : after.Chain mark (.next first) rest := by
      apply restChain.frame (links first mem_cons_self)
      · intro node mem
        exact links node (mem_cons_of_mem first mem)
      · intro node mem
        rw [backs node (mem_cons_of_mem first mem), if_neg]
        rintro ⟨rfl⟩
        exact fresh mem
    have back := backs first mem_cons_self
    rw [List.head?_cons, if_pos rfl] at back
    exact ⟨⟨link, back, framed.1⟩, framed.2⟩

/-- No node is twice in the lists. -/
structure Separate (chains : I → List N) : Prop where
  nodup : ∀ list, (chains list).Nodup
  unique : ∀ list other node, node ∈ chains list → node ∈ chains other → list = other

/-- Every list is a chain, and no node is twice in them. -/
structure Chains (mark : Place I N → B) (lists : Lists I N B) (chains : I → List N) : Prop
    extends Separate chains where
  chain : ∀ list, lists.Chain mark (.head list) (chains list)

variable {chains : I → List N} {list : I}

omit [DecidableEq N] in
theorem Separate.update (separate : Separate chains) (nodup : nodes.Nodup)
    (apart : ∀ other, other ≠ list → ∀ node ∈ nodes, node ∉ chains other) :
    Separate (update chains list nodes) := by
  constructor
  · exact (forall_update_iff _ fun _ => List.Nodup).mpr ⟨nodup, fun other _ => separate.nodup other⟩
  · intro first second node firstMem secondMem
    by_cases firstSame : first = list <;> by_cases secondSame : second = list
    · rw [firstSame, secondSame]
    · rw [firstSame, update_self] at firstMem
      rw [update_of_ne secondSame] at secondMem
      exact absurd secondMem (apart second secondSame node firstMem)
    · rw [secondSame, update_self] at secondMem
      rw [update_of_ne firstSame] at firstMem
      exact absurd firstMem (apart first firstSame node secondMem)
    · rw [update_of_ne firstSame] at firstMem
      rw [update_of_ne secondSame] at secondMem
      exact separate.unique first second node firstMem secondMem

omit [DecidableEq N] in
theorem mem_update_cons : next ∈ update chains list (node :: chains list) other ↔
      (next = node ∧ other = list) ∨ next ∈ chains other := by
  by_cases same : other = list
  · rw [same, update_self]
    simp
  · rw [update_of_ne same]
    simp [same]

theorem Separate.mem_update_erase (separate : Separate chains) (mem : node ∈ chains list) :
    next ∈ Function.update chains list ((chains list).erase node) other ↔
      next ≠ node ∧ next ∈ chains other := by
  by_cases same : other = list
  · rw [same, update_self, (separate.nodup list).mem_erase_iff]
  · rw [update_of_ne same]
    constructor
    · intro otherMem
      refine ⟨?_, otherMem⟩
      rintro rfl
      exact same (separate.unique other list next otherMem mem)
    · exact And.right

section

variable (rep : lists.Chains mark chains)
include rep

omit [DecidableEq I] [DecidableEq N]

theorem Chains.first_eq (list : I) : lists.first list = (chains list).head? :=
  some.inj (rep.chain list).load_eq

theorem Chains.allocated (mem : node ∈ chains list) : (lists.backOf node).isSome :=
  (rep.chain list).1.allocated mem

theorem Chains.first_allocated (list : I) :
    ∀ next ∈ lists.first list, (lists.backOf next).isSome := by
  intro next first
  rw [rep.first_eq list] at first
  exact rep.allocated (mem_of_head? first)

end

omit [DecidableEq N] in
/-- A change of one list, which writes only its head, its nodes and one more node, that no
other list has. -/
theorem Chains.replace (rep : lists.Chains mark chains) (nodup : nodes.Nodup)
    (origin : ∀ next ∈ nodes, next = node ∨ next ∈ chains list)
    (alone : ∀ other, other ≠ list → node ∉ chains other)
    (heads : ∀ other, other ≠ list → after.load (.head other) = lists.load (.head other))
    (same : ∀ next, next ≠ node → next ∉ chains list →
      after.load (.next next) = lists.load (.next next) ∧ after.backOf next = lists.backOf next)
    (chain : after.Chain mark (.head list) nodes) :
    after.Chains mark (update chains list nodes) := by
  have outside {other : I} {next : N} (different : other ≠ list) (mem : next ∈ chains other) :
      next ≠ node ∧ next ∉ chains list :=
    ⟨fun equal => alone other different (equal ▸ mem),
      fun here => different (rep.unique other list next mem here)⟩
  refine ⟨rep.toSeparate.update nodup fun other different next mem otherMem => ?_, ?_⟩
  · obtain ⟨notNode, notHere⟩ := outside different otherMem
    exact (origin next mem).elim notNode notHere
  · refine (forall_update_iff _ fun other => after.Chain mark (.head other)).mpr
      ⟨chain, fun other different => (rep.chain other).frame (heads other different) ?_ ?_⟩
    · exact fun next mem => (same next (outside different mem).1 (outside different mem).2).1
    · exact fun next mem => (same next (outside different mem).1 (outside different mem).2).2

/-- Putting an unused node in front of a list. -/
theorem Chains.addHead (rep : lists.Chains mark chains) (fresh : ∀ other, node ∉ chains other)
    (added : AddedHead mark lists after node list) :
    after.Chains mark (update chains list (node :: chains list)) := by
  have ne_of_mem {next : N} (mem : next ∈ chains list) : next ≠ node := fun same =>
    fresh list (same ▸ mem)
  have links {next : N} (different : next ≠ node) :
      after.load (.next next) = lists.load (.next next) := by
    rw [added.load, if_neg (by simp), if_neg (by simpa using different)]
  refine rep.replace (nodup_cons.mpr ⟨fresh list, rep.nodup list⟩) (fun _ => mem_cons.mp)
    (fun other _ => fresh other) (fun other different => ?_) (fun next notNode notHere => ?_) ?_
  · rw [added.load, if_neg (by simp [different]), if_neg (by simp)]
  · refine ⟨links notNode, ?_⟩
    rw [added.back, if_neg notNode, rep.first_eq, if_neg]
    exact fun first => notHere (mem_of_head? first.symm)
  · have rest : after.Chain mark (.next node) (chains list) := by
      apply (rep.chain list).reroot (rep.nodup list)
      · rw [added.load, if_neg (by simp), if_pos rfl, rep.first_eq]
      · intro next mem
        exact links (ne_of_mem mem)
      · intro next mem
        rw [added.back, if_neg (ne_of_mem mem), rep.first_eq]
    refine ⟨⟨?_, ?_, rest.1⟩, rest.2⟩
    · rw [added.load, if_pos rfl]
    · rw [added.back, if_pos rfl]

theorem AddedHead.isSome_backOf (added : AddedHead mark lists after node list)
    (allocated : (lists.backOf node).isSome)
    (firstAllocated : ∀ next ∈ lists.first list, (lists.backOf next).isSome) (other : N) :
    (after.backOf other).isSome = (lists.backOf other).isSome := by
  rw [added.back]
  split
  next same => rw [same, allocated, isSome_some]
  · split
    next first => rw [firstAllocated other first.symm, isSome_some]
    · rfl

/-! ## Taking nodes out -/

/-- A node of a list with what is before and behind it. -/
structure At (mark : Place I N → B) (lists : Lists I N B) (list : I) (front : List N) (node : N)
    (back : List N) : Prop where
  nodup : (front ++ node :: back).Nodup
  path : lists.Path mark (.head list) front
  link : lists.load (endPlace (.head list) front) = some (some node)
  marked : lists.backOf node = some (mark (endPlace (.head list) front))
  rest : lists.Chain mark (.next node) back

omit [DecidableEq I] [DecidableEq N] in
theorem Chains.exists_at (rep : lists.Chains mark chains) (mem : node ∈ chains list) :
    ∃ front back, chains list = front ++ node :: back ∧ lists.At mark list front node back := by
  obtain ⟨front, back, whole⟩ := append_of_mem mem
  have nodup := rep.nodup list
  have chain := rep.chain list
  rw [whole] at nodup chain
  obtain ⟨path, rest⟩ := chain_append.mp chain
  exact ⟨front, back, whole, nodup, path, rest.1.1, rest.1.2.1, rest.1.2.2, rest.2⟩

namespace At

section

omit [DecidableEq I] [DecidableEq N]

/-- The place of the node is the head or belongs to a node before it. -/
theorem place_ne (outside : next ∉ front) :
    endPlace (.head list : Place I N) front ≠ .next next := by
  intro same
  rcases endPlace_eq (.head list) front with head | ⟨last, lastMem, eq⟩
  · exact absurd (head.symm.trans same) (by simp)
  · exact outside (Place.next.inj (same.symm.trans eq) ▸ lastMem)

theorem head_ne (different : other ≠ list) (front : List N) :
    (.head other : Place I N) ≠ endPlace (.head list) front := by
  intro same
  rcases endPlace_eq (.head list) front with head | ⟨last, -, next⟩
  · exact different (Place.head.inj (same.trans head))
  · exact absurd (same.trans next) (by simp)

variable (position : lists.At mark list front node back)
include position

theorem not_mem_front : node ∉ front := fun mem =>
  (nodup_append.mp position.nodup).2.2 node mem node mem_cons_self rfl

theorem not_mem_back : node ∉ back :=
  (nodup_cons.mp (nodup_append.mp position.nodup).2.1).1

theorem front_not_mem_back (mem : next ∈ front) : next ∉ back := fun backMem =>
  (nodup_append.mp position.nodup).2.2 next mem next (mem_cons_of_mem node backMem) rfl

end

variable {cleared : B}

/-- The list without the node. -/
theorem chain_of_unlinked (position : lists.At mark list front node back)
    (unlinked : Unlinked lists after (endPlace (.head list) front)
      (mark (endPlace (.head list) front)) cleared node back.head?) :
    after.Chain mark (.head list) (front ++ back) := by
  apply chain_append.mpr
  constructor
  · apply position.path.congr
    · intro link linkMem
      rw [unlinked.load, if_neg, if_neg]
      · rintro rfl
        exact endPlace_not_mem_places (nodup_append.mp position.nodup).1 (by simp) linkMem
      · rintro rfl
        rcases mem_places linkMem with head | ⟨next, nextMem, eq⟩
        · cases head
        · exact position.not_mem_front (Place.next.inj eq ▸ nextMem)
    · intro next nextMem
      rw [unlinked.back, if_neg, if_neg]
      · intro first
        exact position.front_not_mem_back nextMem (mem_of_head? first.symm)
      · rintro rfl
        exact position.not_mem_front nextMem
  · apply position.rest.reroot (nodup_append.mp position.nodup).2.1.of_cons
    · rw [unlinked.load, if_neg (place_ne position.not_mem_front), if_pos rfl]
    · intro next nextMem
      have different : next ≠ node := fun same => position.not_mem_back (same ▸ nextMem)
      have outside : next ∉ front := fun frontMem => position.front_not_mem_back frontMem nextMem
      rw [unlinked.load, if_neg (by simpa using different), if_neg (place_ne outside).symm]
    · intro next nextMem
      rw [unlinked.back, if_neg]
      rintro rfl
      exact position.not_mem_back nextMem

end At

section

variable (rep : lists.Chains mark chains)
include rep

/-- Taking a node out of its list, from its place. -/
theorem Chains.unlinkAt (whole : chains list = front ++ node :: back)
    (position : lists.At mark list front node back) (cleared : B) :
    ∃ after, lists.unlink (endPlace (.head list) front) (mark (endPlace (.head list) front)) cleared
        node = some after ∧
      after.Chains mark (update chains list (front ++ back)) ∧
      ∀ other, (after.backOf other).isSome = (lists.backOf other).isSome := by
  have successors : ∀ next ∈ back.head?, (lists.backOf next).isSome := fun next first =>
    position.rest.1.allocated (mem_of_head? first)
  obtain ⟨after, unlinkEq, unlinked⟩ := unlink_spec cleared position.rest.load_eq
    (by rw [position.link]; rfl) successors (At.place_ne position.not_mem_front)
  have fewer : (front ++ back).Sublist (chains list) := by
    rw [whole]
    exact (sublist_cons_self node back).append_left front
  have mem : node ∈ chains list := by simp [whole]
  refine ⟨after, unlinkEq, rep.replace ((rep.nodup list).sublist fewer)
    (fun next nextMem => .inr (fewer.subset nextMem))
    (fun other different otherMem => different (rep.unique other list node otherMem mem))
    (fun other different => ?_) (fun next notNode notHere => ?_)
    (position.chain_of_unlinked unlinked), ?_⟩
  · rw [unlinked.load, if_neg (by simp), if_neg (At.head_ne different front)]
  · rw [whole, mem_append, mem_cons, not_or, not_or] at notHere
    rw [unlinked.load, if_neg (by simpa using notNode), if_neg (At.place_ne notHere.1).symm,
      unlinked.back, if_neg notNode, if_neg]
    · exact ⟨rfl, rfl⟩
    · exact fun first => notHere.2.2 (mem_of_head? first.symm)
  · intro other
    rw [unlinked.back]
    split
    next same => rw [same, position.marked, isSome_some, isSome_some]
    · split
      next first => rw [successors other first.symm, isSome_some]
      · rfl

/-- Taking a node out of its list, from the place that it is marked with. -/
theorem Chains.unlink (mem : node ∈ chains list) (cleared : B) :
    ∃ place after, (place = .head list ∨ ∃ before, place = .next before) ∧
      lists.backOf node = some (mark place) ∧
      lists.unlink place (mark place) cleared node = some after ∧
      after.Chains mark (update chains list ((chains list).erase node)) ∧
      ∀ other, (after.backOf other).isSome = (lists.backOf other).isSome := by
  obtain ⟨front, back, whole, position⟩ := rep.exists_at mem
  obtain ⟨after, unlinkEq, chained, same⟩ := rep.unlinkAt whole position cleared
  have erased : (chains list).erase node = front ++ back := by
    rw [whole, erase_append_right _ position.not_mem_front, erase_cons_head]
  refine ⟨_, after, ?_, position.marked, unlinkEq, erased ▸ chained, same⟩
  rcases endPlace_eq (.head list) front with head | ⟨last, -, next⟩
  · exact .inl head
  · exact .inr ⟨last, next⟩

/-- Linking a new node, which is marked with the end of the list, there. -/
theorem Chains.addTail (fresh : ∀ other, node ∉ chains other)
    (fieldsEq : lists.node node = some ⟨none, mark (endPlace (.head list) (chains list))⟩) :
    ∃ after, lists.store (some node) (endPlace (.head list) (chains list)) = some after ∧
      after.Chains mark (update chains list (chains list ++ [node])) ∧
      ∀ other, after.backOf other = lists.backOf other := by
  have chain := rep.chain list
  obtain ⟨after, storeEq, loads, backs⟩ := store_spec
    (show (lists.load (endPlace (.head list) (chains list))).isSome by rw [chain.2]; rfl) (some node)
  have other_ne {next : N} (outside : next ∉ chains list) :
      Place.next next ≠ endPlace (.head list) (chains list) := (At.place_ne outside).symm
  refine ⟨after, storeEq, rep.replace ?_ (fun next mem => ?_) (fun other _ => fresh other)
    (fun other different => ?_) (fun next _ notHere => ⟨?_, backs next⟩) ?_, backs⟩
  · exact nodup_append.mpr ⟨rep.nodup list, nodup_singleton node, fun next mem _ last same =>
      fresh list (mem_singleton.mp last ▸ same ▸ mem)⟩
  · exact (mem_append.mp mem).symm.imp_left mem_singleton.mp
  · rw [loads, if_neg (At.head_ne different _)]
  · rw [loads, if_neg (other_ne notHere)]
  · apply chain_append.mpr
    refine ⟨chain.1.congr (fun link linkMem => ?_) fun next _ => backs next, ⟨?_, ?_, trivial⟩, ?_⟩
    · rw [loads, if_neg]
      rintro rfl
      exact endPlace_not_mem_places (rep.nodup list) (by simp) linkMem
    · rw [loads, if_pos rfl]
    · rw [backs, backOf, fieldsEq]
      rfl
    · rw [endPlace, endPlace, loads, if_neg (other_ne (fresh list)), load, fieldsEq]
      rfl

end

/-! ## Traversals -/

section

omit [DecidableEq I] [DecidableEq N]

/-- What a traversal returns meets the condition. -/
theorem find_met {condition : N → Bool} {first : Option N}
    (found : lists.find condition rounds first = some (some node)) : condition node = true := by
  fun_induction lists.find condition rounds first with
  | case4 _ _ _ _ met =>
    cases found
    exact met
  | case5 _ _ _ _ _ ih => exact ih found
  | _ => cases found

/-- A traversal of a chain, which returns with enough rounds. -/
theorem find_yields (condition : N → Bool) (chain : lists.Chain mark place nodes) :
    Yields (lists.find condition rounds nodes.head?) (nodes.length < rounds)
      (· = nodes.find? condition) := by
  induction nodes generalizing place rounds with
  | nil =>
    cases rounds with
    | zero => exact .stuck (Nat.not_lt_zero _)
    | succ rounds => exact .pure rfl
  | cons node nodes ih =>
    cases rounds with
    | zero => exact .stuck (Nat.not_lt_zero _)
    | succ rounds =>
      have rest : lists.Chain mark (.next node) nodes := ⟨chain.1.2.2, chain.2⟩
      obtain ⟨fields, fieldsEq, nextEq⟩ := map_eq_some_iff.mp rest.load_eq
      rw [List.head?_cons, find, fieldsEq]
      by_cases met : condition node = true
      · simp only [if_pos met, List.find?_cons_of_pos met]
        exact .pure rfl
      · simp only [if_neg met, List.find?_cons_of_neg met, nextEq]
        exact (ih rest).when Nat.lt_of_succ_lt_succ

theorem Chains.find_yields (rep : lists.Chains mark chains) (condition : N → Bool) (list : I) :
    Yields (lists.find condition rounds (lists.first list)) ((chains list).length < rounds)
      (· = (chains list).find? condition) := by
  rw [rep.first_eq]
  exact Lists.find_yields condition (rep.chain list)

end

/-! ## Memory -/

omit [DecidableEq I] in
/-- A node outside the lists can change in any way. -/
theorem Chains.update_node (rep : lists.Chains mark chains) (outside : ∀ list, node ∉ chains list)
    (value : Option (Fields N B)) :
    Chains mark { lists with node := update lists.node node value } chains where
  toSeparate := rep.toSeparate
  chain := by
    intro list
    have different : ∀ next ∈ chains list, next ≠ node := by
      rintro next mem rfl
      exact outside list mem
    apply (rep.chain list).frame
    · rfl
    · intro next mem
      simp [load, update_of_ne (different next mem)]
    · intro next mem
      simp [backOf, update_of_ne (different next mem)]

omit [DecidableEq I] [DecidableEq N] in
theorem Chains.not_mem_of_node (rep : lists.Chains mark chains) (unused : lists.node node = none)
    (list : I) : node ∉ chains list := by
  intro mem
  have allocated := rep.allocated mem
  rw [backOf, unused] at allocated
  cases allocated

section

omit [DecidableEq I]

theorem Chains.setNode (rep : lists.Chains mark chains) (unused : lists.node node = none)
    (fields : Fields N B) : (lists.setNode node fields).Chains mark chains :=
  rep.update_node (rep.not_mem_of_node unused) _

theorem isSome_backOf_setNode (lists : Lists I N B) (node : N) (fields : Fields N B) :
    ((lists.setNode node fields).backOf node).isSome := by
  simp only [backOf, Lists.setNode, update_self]
  rfl

theorem backOf_setNode_of_ne {other : N} (different : other ≠ node) (fields : Fields N B) :
    (lists.setNode node fields).backOf other = lists.backOf other := by
  simp [backOf, Lists.setNode, update_of_ne different]

theorem Chains.free (rep : lists.Chains mark chains) (outside : ∀ list, node ∉ chains list) :
    (lists.free node).Chains mark chains :=
  rep.update_node outside none

theorem free_setNode (unused : lists.node node = none) (fields : Fields N B) :
    (lists.setNode node fields).free node = lists := by
  ext1
  · rfl
  · rw [free, Lists.setNode, update_idem, ← unused, update_eq_self]

end

end Lists

end QDaemon.Linked
