import Mathlib.Data.List.Nodup
import Mathlib.Logic.Function.Basic

/-!
# Intrusive doubly linked lists

A list is a ring of nodes through a head that is a node itself.  The links are
two functions on nodes, and the operations assign to them one after the other,
also where two of the nodes involved coincide.
-/

namespace QDaemon.Linked

open List Function

universe u

/-- The link fields of all nodes. -/
@[ext]
structure Links (N : Type u) where
  next : N → N
  prev : N → N

variable {N : Type u} [DecidableEq N]

namespace Links

/-- Assign to the next field of a node. -/
def setNext (links : Links N) (node value : N) : Links N :=
  { links with next := update links.next node value }

/-- Assign to the previous field of a node. -/
def setPrev (links : Links N) (node value : N) : Links N :=
  { links with prev := update links.prev node value }

/-- Make a node an empty list. -/
def init (links : Links N) (node : N) : Links N :=
  (links.setNext node node).setPrev node node

/-- Insert a node between two neighbours. -/
def add (links : Links N) (new prev next : N) : Links N :=
  (((links.setPrev next new).setNext new next).setPrev new prev).setNext prev new

/-- Insert a node at the end of a list. -/
def addTail (links : Links N) (new head : N) : Links N :=
  links.add new (links.prev head) head

/-- Connect two nodes around whatever is between them. -/
def del (links : Links N) (prev next : N) : Links N :=
  (links.setPrev next prev).setNext prev next

/-- Take a node out of its list and make it an empty one. -/
def delInit (links : Links N) (entry : N) : Links N :=
  (links.del (links.prev entry) (links.next entry)).init entry

/-- Whether a list has no entries. -/
def Empty (links : Links N) (head : N) : Prop :=
  links.next head = head

instance (links : Links N) (head : N) : Decidable (links.Empty head) :=
  inferInstanceAs (Decidable (_ = _))

/-- Insert the entries of a list at the front of another one.  The head they come
from keeps its links. -/
def splice (links : Links N) (list head : N) : Links N :=
  if links.Empty list then links
  else
    let first := links.next list
    let last := links.prev list
    let next := links.next head
    (((links.setPrev first head).setNext head first).setNext last next).setPrev next last

variable (links : Links N)
include links

theorem init_next (node : N) : (links.init node).next = update links.next node node := rfl

theorem init_prev (node : N) : (links.init node).prev = update links.prev node node := rfl

theorem addTail_next (new head : N) :
    (links.addTail new head).next = update (update links.next new head) (links.prev head) new := rfl

theorem addTail_prev (new head : N) :
    (links.addTail new head).prev = update (update links.prev head new) new (links.prev head) := rfl

theorem delInit_next (entry : N) : (links.delInit entry).next =
      update (update links.next (links.prev entry) (links.next entry))
        entry entry := rfl

theorem delInit_prev (entry : N) : (links.delInit entry).prev =
      update (update links.prev (links.next entry) (links.prev entry))
        entry entry := rfl

end Links

/-! ## Segments -/

/-- From a node through the entries of a list to a node, with links in both
directions. -/
def Segment (links : Links N) : N → List N → N → Prop
  | source, [], target => links.next source = target ∧ links.prev target = source
  | source, node :: rest, target =>
      (links.next source = node ∧ links.prev node = source) ∧ Segment links node rest target

section Segment

variable {links changed : Links N} {source target middle : N} {entries rest : List N}

section

omit [DecidableEq N]

theorem segment_append : Segment links source (entries ++ middle :: rest) target ↔
      Segment links source entries middle ∧ Segment links middle rest target := by
  induction entries generalizing source with
  | nil => exact Iff.rfl
  | cons node entries ih => exact (and_congr_right fun _ => ih).trans and_assoc.symm

variable (segment : Segment links source entries target)
include segment

/-- A segment depends on the next fields before its end and the previous fields
after its start. -/
theorem Segment.congr (next : ∀ node ∈ source :: entries, changed.next node = links.next node)
    (prev : ∀ node ∈ entries ++ [target], changed.prev node = links.prev node) :
    Segment changed source entries target := by
  induction entries generalizing source with
  | nil =>
    rw [Segment, next source mem_cons_self, prev target mem_cons_self]
    exact segment
  | cons node entries ih =>
    refine ⟨?_, ih segment.2 (fun other mem => next other (mem_cons_of_mem _ mem))
      (fun other mem => prev other (mem_cons_of_mem _ mem))⟩
    rw [next source mem_cons_self, prev node mem_cons_self]
    exact segment.1

/-- The node before the end of a segment. -/
theorem Segment.prev_target :
    links.prev target = (source :: entries).getLast (cons_ne_nil _ _) := by
  induction entries generalizing source with
  | nil => exact segment.2
  | cons node entries ih =>
    exact ih segment.2

/-- The end of a segment can be moved to another node. -/
theorem Segment.retarget {last : N}
    (lastEq : links.prev target = last) (distinct : (source :: entries).Nodup)
    (next : ∀ node ∈ source :: entries, node ≠ last → changed.next node = links.next node)
    (prev : ∀ node ∈ entries, changed.prev node = links.prev node)
    (nextLast : changed.next last = middle) (prevMiddle : changed.prev middle = last) :
    Segment changed source entries middle := by
  rw [segment.prev_target] at lastEq
  induction entries generalizing source with
  | nil =>
    obtain rfl : source = last := lastEq
    exact ⟨nextLast, prevMiddle⟩
  | cons node entries ih =>
    have sourceOther : source ≠ last := by
      rintro rfl
      refine (nodup_cons.mp distinct).1 ?_
      rw [← lastEq]
      exact getLast_mem _
    refine ⟨?_, ih segment.2 lastEq (nodup_cons.mp distinct).2
      (fun other mem => next other (mem_cons_of_mem _ mem))
      (fun other mem => prev other (mem_cons_of_mem _ mem))⟩
    rw [next source mem_cons_self sourceOther, prev node mem_cons_self]
    exact segment.1

end

end Segment

/-! ## One list -/

/-- The list with the given head has exactly these entries, in this order. -/
structure Ring (links : Links N) (head : N) (entries : List N) : Prop where
  segment : Segment links head entries head
  distinct : (head :: entries).Nodup

section Ring

variable {links changed : Links N} {head new entry other : N} {entries front back : List N}

section

omit [DecidableEq N]

section

variable (ring : Ring links head entries)
include ring

theorem Ring.congr (next : ∀ node ∈ head :: entries, changed.next node = links.next node)
    (prev : ∀ node ∈ head :: entries, changed.prev node = links.prev node) :
    Ring changed head entries := by
  refine ⟨ring.segment.congr next fun node mem => prev node ?_, ring.distinct⟩
  rcases mem_append.mp mem with inside | last
  · exact mem_cons_of_mem head inside
  · rw [mem_singleton.mp last]
    exact mem_cons_self

theorem Ring.prev_head_mem : links.prev head ∈ head :: entries := by
  rw [ring.segment.prev_target]
  exact getLast_mem _

theorem Ring.empty_iff : links.Empty head ↔ entries = [] := by
  have segment := ring.segment
  cases entries with
  | nil => exact ⟨fun _ => rfl, fun _ => segment.1⟩
  | cons first entries =>
    refine ⟨fun empty => ?_, fun none => absurd none (cons_ne_nil _ _)⟩
    have same : first = head := segment.1.1.symm.trans empty
    exact absurd (same ▸ mem_cons_self) (nodup_cons.mp ring.distinct).1

end

theorem Ring.next_head {first : N} (ring : Ring links head (first :: entries)) :
    links.next head = first :=
  ring.segment.1.1

end

theorem ring_init (links : Links N) (head : N) : Ring (links.init head) head [] := by
  refine ⟨⟨?_, ?_⟩, nodup_singleton head⟩
  · rw [Links.init_next, update_self]
  · rw [Links.init_prev, update_self]

theorem Ring.addTail (ring : Ring links head entries) (fresh : new ∉ head :: entries) :
    Ring (links.addTail new head) head (entries ++ [new]) := by
  have newHead : new ≠ head := fun same => fresh (same ▸ mem_cons_self)
  have newLast : links.prev head ≠ new := fun same => fresh (same ▸ ring.prev_head_mem)
  have headOut := (nodup_cons.mp ring.distinct).1
  refine ⟨segment_append.mpr ⟨?_, ?_, ?_⟩, ?_⟩
  · refine ring.segment.retarget rfl ring.distinct (fun node mem notLast => ?_)
      (fun node mem => ?_) ?_ ?_
    · rw [Links.addTail_next, update_of_ne notLast, update_of_ne]
      exact fun same => fresh (same ▸ mem)
    · rw [Links.addTail_prev, update_of_ne, update_of_ne]
      · exact fun same => headOut (same ▸ mem)
      · exact fun same => fresh (mem_cons_of_mem head (same ▸ mem))
    · rw [Links.addTail_next, update_self]
    · rw [Links.addTail_prev, update_self]
  · rw [Links.addTail_next, update_of_ne newLast.symm, update_self]
  · rw [Links.addTail_prev, update_of_ne newHead.symm, update_self]
  · rw [← cons_append]
    refine List.Nodup.append ring.distinct (nodup_singleton new) ?_
    simpa using fresh

section

omit [DecidableEq N]

/-- The neighbours of an entry. -/
theorem Ring.neighbours (ring : Ring links head (front ++ entry :: back)) :
    links.prev entry ∈ head :: front ∧ links.next entry ∈ head :: back := by
  obtain ⟨before, after⟩ := segment_append.mp ring.segment
  constructor
  · rw [before.prev_target]
    exact getLast_mem _
  · cases back with
    | nil => exact after.1 ▸ mem_cons_self
    | cons node back => exact after.1.1 ▸ mem_cons_of_mem _ mem_cons_self

/-- An entry is not linked to itself. -/
theorem Ring.not_empty_entry (ring : Ring links head entries) (mem : entry ∈ entries) :
    ¬ links.Empty entry := by
  obtain ⟨front, back, rfl⟩ := append_of_mem mem
  have distinct : (entry :: (head :: front ++ back)).Nodup := nodup_middle.mp ring.distinct
  have entryOut := (nodup_cons.mp distinct).1
  intro selfLinked
  obtain isHead | inBack := mem_cons.mp (selfLinked ▸ ring.neighbours.2)
  · exact entryOut (isHead ▸ mem_cons_self)
  · exact entryOut (mem_cons_of_mem _ (mem_append_right front inBack))

theorem Segment.unique {others : List N} (segment : Segment links other entries head)
    (again : Segment links other others head) (notMem : head ∉ entries)
    (notOther : head ∉ others) : entries = others := by
  induction entries generalizing other others with
  | nil =>
    cases others with
    | nil => rfl
    | cons node others =>
      have same : head = node := segment.1.symm.trans again.1.1
      exact absurd (same ▸ mem_cons_self) notOther
  | cons node entries ih =>
    cases others with
    | nil =>
      have same : head = node := again.1.symm.trans segment.1.1
      exact absurd (same ▸ mem_cons_self) notMem
    | cons first others =>
      obtain rfl : node = first := segment.1.1.symm.trans again.1.1
      rw [ih segment.2 again.2 (fun mem => notMem (mem_cons_of_mem _ mem))
        fun mem => notOther (mem_cons_of_mem _ mem)]

/-- The links determine the entries. -/
theorem Ring.unique {others : List N} (ring : Ring links head entries)
    (again : Ring links head others) : entries = others :=
  ring.segment.unique again.segment (nodup_cons.mp ring.distinct).1 (nodup_cons.mp again.distinct).1

end

theorem Ring.delInit (ring : Ring links head (front ++ entry :: back)) :
    Ring (links.delInit entry) head (front ++ back) := by
  have distinct : (entry :: (head :: front ++ back)).Nodup := nodup_middle.mp ring.distinct
  obtain ⟨entryOut, rest⟩ := nodup_cons.mp distinct
  obtain ⟨frontDistinct, backDistinct, apart⟩ := nodup_append'.mp rest
  obtain ⟨prevMem, nextMem⟩ := ring.neighbours
  obtain ⟨before, after⟩ := segment_append.mp ring.segment
  have inside {node : N} (mem : node ∈ head :: front ++ back) : node ≠ entry :=
    fun same => entryOut (same ▸ mem)
  have prevInside := inside (mem_append_left back prevMem)
  -- the segment before the entry now ends at the node after it
  have closed (after_ : ∀ node ∈ front, node ≠ links.next entry)
      (nextInside : links.next entry ≠ entry) :
      Segment (links.delInit entry) head front (links.next entry) := by
    refine before.retarget rfl frontDistinct (fun node mem notLast => ?_) (fun node mem => ?_) ?_ ?_
    · rw [Links.delInit_next, update_of_ne (inside (mem_append_left back mem)),
        update_of_ne notLast]
    · rw [Links.delInit_prev, update_of_ne
        (inside (mem_append_left back (mem_cons_of_mem head mem))),
        update_of_ne (after_ node mem)]
    · rw [Links.delInit_next, update_of_ne prevInside, update_self]
    · rw [Links.delInit_prev, update_of_ne nextInside, update_self]
  refine ⟨?_, rest⟩
  cases back with
  | nil =>
    have nextEq : links.next entry = head := after.1
    rw [nextEq] at closed
    rw [append_nil]
    refine closed (fun node mem same => ?_) (inside (mem_append_left _ mem_cons_self))
    exact (nodup_cons.mp frontDistinct).1 (same ▸ mem)
  | cons node back =>
    have nextEq : links.next entry = node := after.1.1
    rw [nextEq] at closed
    have nodeBack : node ∈ node :: back := mem_cons_self
    refine segment_append.mpr ⟨closed (fun other mem same => ?_)
      (inside (mem_append_right _ nodeBack)), ?_⟩
    · exact apart (mem_cons_of_mem head mem) (same ▸ nodeBack)
    · refine after.2.congr (fun other mem => ?_) (fun other mem => ?_)
      · rw [Links.delInit_next, update_of_ne (inside (mem_append_right _ mem)), update_of_ne]
        exact fun same => apart prevMem (same ▸ mem)
      · have facts : other ∈ head :: front ++ node :: back ∧ other ≠ node := by
          rcases mem_append.mp mem with later | last
          · refine ⟨mem_append_right _ (mem_cons_of_mem node later), ?_⟩
            exact fun same => (nodup_cons.mp backDistinct).1 (same ▸ later)
          · rw [mem_singleton.mp last]
            refine ⟨mem_append_left _ mem_cons_self, ?_⟩
            exact fun same => apart mem_cons_self (same ▸ nodeBack)
        rw [Links.delInit_prev, update_of_ne (inside facts.1), nextEq, update_of_ne facts.2]

theorem splice_links (notEmpty : ¬ links.Empty other) (target : Ring links head []) :
    (links.splice other head).next = update (update links.next head
        (links.next other)) (links.prev other) head ∧
      (links.splice other head).prev = update (update links.prev
        (links.next other) head) head (links.prev other) := by
  have empty : links.next head = head := target.segment.1
  rw [Links.splice, if_neg notEmpty]
  simp [Links.setNext, Links.setPrev, empty]

/-- Splicing into an empty list hands over all entries. -/
theorem Ring.splice (ring : Ring links other entries) (target : Ring links head [])
    (notEmpty : entries ≠ []) (fresh : head ∉ other :: entries) :
    Ring (links.splice other head) head entries := by
  have filled : ¬ links.Empty other := fun empty => notEmpty (ring.empty_iff.mp empty)
  obtain ⟨nextEq, prevEq⟩ := splice_links filled target
  obtain ⟨first, rest, rfl⟩ := exists_cons_of_ne_nil notEmpty
  obtain ⟨⟨nextOther, -⟩, segment⟩ := ring.segment
  have distinct := (nodup_cons.mp ring.distinct).2
  have headOut : head ∉ first :: rest := fun mem => fresh (mem_cons_of_mem other mem)
  have headNotLast : head ≠ links.prev other := by
    intro same
    rw [segment.prev_target] at same
    exact headOut (same ▸ getLast_mem _)
  have headNotFirst : first ≠ head := fun same => headOut (same ▸ mem_cons_self)
  refine ⟨⟨⟨?_, ?_⟩, ?_⟩, nodup_cons.mpr ⟨headOut, distinct⟩⟩
  · rw [nextEq, update_of_ne headNotLast, update_self, nextOther]
  · rw [prevEq, update_of_ne headNotFirst, nextOther, update_self]
  · refine segment.retarget rfl distinct (fun node mem notLast => ?_) (fun node mem => ?_) ?_ ?_
    · rw [nextEq, update_of_ne notLast, update_of_ne]
      exact fun same => headOut (same ▸ mem)
    · rw [prevEq, update_of_ne, nextOther, update_of_ne]
      · exact fun same => (nodup_cons.mp distinct).1 (same ▸ mem)
      · exact fun same => headOut (mem_cons_of_mem first (same ▸ mem))
    · rw [nextEq, update_self]
    · rw [prevEq, update_self]

end Ring

end QDaemon.Linked
