import QDaemon.Linked.Ring

/-!
# Several lists on the same nodes

A family of lists is given by the entries of each head in use.  The lists have no
nodes in common, so an operation on one of them leaves the others alone.  A head
that is not in use may be stale: its entries have been spliced away, and its
links still point at them.
-/

namespace QDaemon.Linked

open List Function

universe u

variable {N : Type u} {links changed : Links N} {content : N → Option (List N)}

/-- Every head in use has its entries, and the lists have no common nodes. -/
structure Rings (links : Links N) (content : N → Option (List N)) : Prop where
  ring : ∀ {head entries}, content head = some entries → Ring links head entries
  apart : ∀ {head other entries others}, content head = some entries →
    content other = some others → head ≠ other → List.Disjoint (head :: entries) (other :: others)

/-- A node that belongs to no list. -/
def Outside (content : N → Option (List N)) (node : N) : Prop :=
  ∀ head entries, content head = some entries → node ∉ head :: entries

/-- A head whose first entry does not point back to it. -/
def Stale (links : Links N) (head : N) : Prop :=
  links.next head ≠ head ∧ links.prev (links.next head) ≠ head

variable {head : N}
variable {stale : N}

theorem Ring.not_stale {entries : List N} (ring : Ring links head entries) :
    ¬ Stale links head := by
  have segment := ring.segment
  rintro ⟨notSelf, notBack⟩
  cases entries with
  | nil => exact notSelf segment.1
  | cons first entries =>
    rw [segment.1.1] at notBack
    exact notBack segment.1.2

variable [DecidableEq N]

instance (links : Links N) (head : N) : Decidable (Stale links head) :=
  inferInstanceAs (Decidable (_ ∧ _))

/-- Content after the entries of a head have been replaced. -/
theorem update_eq_some {other : N} {entries : Option (List N)} {list : List N}
    (eq : update content head entries other = some list) :
    (other = head ∧ entries = some list) ∨ (other ≠ head ∧ content other = some list) := by
  by_cases same : other = head
  · subst same
    rw [update_self] at eq
    exact .inl ⟨rfl, eq⟩
  · rw [update_of_ne same] at eq
    exact .inr ⟨same, eq⟩

/-! ## What an operation writes -/

/-- Only these nodes are written, and only they are written into the field for the previous
node. -/
structure Writes (written : N → Prop) (links changed : Links N) : Prop where
  next : ∀ node, ¬ written node → changed.next node = links.next node
  prev : ∀ node, ¬ written node → changed.prev node = links.prev node
  back : ∀ node, changed.prev node = links.prev node ∨ written (changed.prev node)

section Writes

variable {written : N → Prop} {node value : N}

omit [DecidableEq N] in
theorem Writes.refl (links : Links N) : Writes written links links :=
  ⟨fun _ _ => rfl, fun _ _ => rfl, fun _ => .inl rfl⟩

omit [DecidableEq N] in
/-- A head that is not written stays stale. -/
theorem Writes.keeps_stale (writes : Writes written links changed) (isStale : Stale links head)
    (out : ¬ written head) : Stale changed head := by
  rw [Stale, writes.next head out]
  refine ⟨isStale.1, ?_⟩
  rcases writes.back (links.next head) with same | other
  · rw [same]
    exact isStale.2
  · exact fun equal => out (equal ▸ other)

theorem Writes.setNext (writes : Writes written links changed) (mine : written node) :
    Writes written links (changed.setNext node value) := by
  refine { writes with next := fun other out => ?_ }
  have different : other ≠ node := fun same => out (same ▸ mine)
  exact (update_of_ne different _ _).trans (writes.next other out)

theorem Writes.setPrev (writes : Writes written links changed) (mine : written node)
    (inside : written value) : Writes written links (changed.setPrev node value) := by
  refine { writes with prev := fun other out => ?_, back := ?_ }
  · have different : other ≠ node := fun same => out (same ▸ mine)
    exact (update_of_ne different _ _).trans (writes.prev other out)
  · exact (forall_update_iff _ fun other value => value = links.prev other ∨ written value).mpr
      ⟨.inr inside, fun other _ => writes.back other⟩

theorem Writes.init (writes : Writes written links changed) (mine : written node) :
    Writes written links (changed.init node) :=
  (writes.setNext mine).setPrev mine mine

theorem writes_init (links : Links N) (head : N) : Writes (· = head) links (links.init head) :=
  (Writes.refl links).init rfl

theorem writes_addTail {new : N} (newIn : written new) (headIn : written head)
    (lastIn : written (links.prev head)) : Writes written links (links.addTail new head) :=
  (((Writes.refl links).setPrev headIn newIn).setNext newIn |>.setPrev newIn lastIn).setNext lastIn

theorem writes_delInit (mine : written node) (prevIn : written (links.prev node))
    (nextIn : written (links.next node)) : Writes written links (links.delInit node) :=
  (((Writes.refl links).setPrev nextIn prevIn).setNext prevIn).init mine

theorem writes_splice {source : N} (target : Ring links head []) (headIn : written head)
    (firstIn : written (links.next source)) (lastIn : written (links.prev source)) :
    Writes written links (links.splice source head) := by
  rw [Links.splice]
  split_ifs
  · exact .refl links
  · have nextIn : written (links.next head) := by rwa [show links.next head = head from target.segment.1]
    exact (((Writes.refl links).setPrev firstIn headIn).setNext headIn |>.setNext lastIn).setPrev nextIn
      lastIn

end Writes

/-! ## Changing one list -/

section

variable (rings : Rings links content)
include rings

/-- If only nodes of one list and nodes of no list are written, the other lists
are as before. -/
theorem Rings.replace {written : N → Prop} {entries : List N} (ring : Ring changed head entries)
    (writes : Writes written links changed) (inside : ∀ node ∈ head :: entries, written node)
    (apart : ∀ other others, other ≠ head → content other = some others →
      ∀ node ∈ other :: others, ¬ written node) :
    Rings changed (update content head (some entries)) := by
  constructor
  · intro other others eq
    rcases update_eq_some eq with ⟨rfl, ⟨⟩⟩ | ⟨different, old⟩
    · exact ring
    · exact (rings.ring old).congr
        (fun node mem => writes.next node (apart other others different old node mem))
        (fun node mem => writes.prev node (apart other others different old node mem))
  · intro first second firsts seconds firstEq secondEq different
    rcases update_eq_some firstEq with ⟨rfl, ⟨⟩⟩ | ⟨firstOther, firstOld⟩
    · rcases update_eq_some secondEq with ⟨rfl, -⟩ | ⟨secondOther, secondOld⟩
      · exact absurd rfl different
      · exact fun node mine theirs =>
          apart second seconds secondOther secondOld node theirs (inside node mine)
    · rcases update_eq_some secondEq with ⟨rfl, ⟨⟩⟩ | ⟨-, secondOld⟩
      · exact fun node theirs mine =>
          apart first firsts firstOther firstOld node theirs (inside node mine)
      · exact rings.apart firstOld secondOld different

/-- A list that is no longer in use. -/
theorem Rings.forget (head : N) : Rings links (update content head none) := by
  have known {other : N} {others : List N} (eq : update content head none other = some others) :
      content other = some others := by
    rcases update_eq_some eq with ⟨-, ⟨⟩⟩ | ⟨-, old⟩
    exact old
  exact ⟨fun eq => rings.ring (known eq),
    fun firstEq secondEq => rings.apart (known firstEq) (known secondEq)⟩

/-- An unused node becomes an empty list. -/
theorem Rings.init (outside : Outside content head) :
    Rings (links.init head) (update content head (some [])) := by
  refine rings.replace (ring_init links head) (writes_init links head) (by simp) ?_
  rintro other others - eq node mem rfl
  exact outside other others eq mem

end

section AddTail

variable {new : N} {entries : List N} (rings : Rings links content)
  (headEq : content head = some entries)
include rings headEq

theorem Rings.writes_addTail :
    Writes (fun node => node = new ∨ node ∈ head :: entries) links (links.addTail new head) :=
  Linked.writes_addTail (.inl rfl) (.inr mem_cons_self) (.inr (rings.ring headEq).prev_head_mem)

/-- Insert an unused node at the end of a list. -/
theorem Rings.addTail (outside : Outside content new) :
    Rings (links.addTail new head) (update content head (some (entries ++ [new]))) := by
  refine rings.replace ((rings.ring headEq).addTail (outside head entries headEq))
    (rings.writes_addTail headEq) (by simp [or_comm, or_left_comm]) ?_
  rintro other others different eq node mem (rfl | mine)
  · exact outside other others eq mem
  · exact rings.apart headEq eq different.symm mine mem

theorem Rings.stale_addTail (isStale : Stale links stale) (outside : Outside content stale)
    (notNew : stale ≠ new) : Stale (links.addTail new head) stale :=
  (rings.writes_addTail headEq).keeps_stale isStale fun written =>
    written.elim notNew (outside head entries headEq)

end AddTail

section DelInit

variable {entry : N} {front back : List N} (rings : Rings links content)
  (headEq : content head = some (front ++ entry :: back))
include rings headEq

/-- An entry and its neighbours are nodes of its list. -/
theorem Rings.writes_delInit :
    Writes (· ∈ head :: (front ++ entry :: back)) links (links.delInit entry) := by
  obtain ⟨prevMem, nextMem⟩ := (rings.ring headEq).neighbours
  apply Linked.writes_delInit
  · simp
  · exact cons_subset_cons head (subset_append_left _ _) prevMem
  · refine cons_subset_cons head (fun node mem => ?_) nextMem
    exact mem_append_right _ (mem_cons_of_mem entry mem)

/-- Take an entry out of a list. -/
theorem Rings.delInit : Rings (links.delInit entry) (update content head (some (front ++ back))) := by
  refine rings.replace (rings.ring headEq).delInit (rings.writes_delInit headEq) ?_
    fun other others different eq node mem mine => rings.apart headEq eq different.symm mine mem
  exact cons_subset_cons head ((sublist_cons_self entry back).append_left front).subset

theorem Rings.stale_delInit (isStale : Stale links stale) (outside : Outside content stale) :
    Stale (links.delInit entry) stale :=
  (rings.writes_delInit headEq).keeps_stale isStale (outside head _ headEq)

end DelInit

section Splice

variable {source : N} {entries : List N} (rings : Rings links content)
  (sourceEq : content source = some entries) (headEq : content head = some [])
  (notEmpty : entries ≠ [])

omit [DecidableEq N] in
/-- The first and the last entry of a list. -/
theorem Ring.ends_mem (ring : Ring links source entries) (notEmpty : entries ≠ []) :
    links.next source ∈ entries ∧ links.prev source ∈ entries := by
  obtain ⟨first, rest, rfl⟩ := exists_cons_of_ne_nil notEmpty
  refine ⟨ring.next_head ▸ mem_cons_self, ?_⟩
  rw [ring.segment.prev_target]
  exact getLast_mem notEmpty

include rings sourceEq headEq notEmpty

theorem Rings.writes_splice :
    Writes (fun node => node ∈ head :: entries) links (links.splice source head) := by
  obtain ⟨firstMem, lastMem⟩ := (rings.ring sourceEq).ends_mem notEmpty
  exact Linked.writes_splice (rings.ring headEq) mem_cons_self (mem_cons_of_mem head firstMem)
    (mem_cons_of_mem head lastMem)

/-- Splicing into an empty list hands over all entries; the head they come from
is not in use any more. -/
theorem Rings.splice (different : head ≠ source) : Rings (links.splice source head)
      (update (update content source none) head (some entries)) := by
  refine (rings.forget source).replace ((rings.ring sourceEq).splice (rings.ring headEq) notEmpty
    (rings.apart headEq sourceEq different mem_cons_self))
    (rings.writes_splice sourceEq headEq notEmpty) (fun _ => id) ?_
  intro other others notHead eq node mem mine
  obtain ⟨-, ⟨⟩⟩ | ⟨notSource, old⟩ := update_eq_some eq
  rcases mem_cons.mp mine with rfl | inside
  · exact rings.apart headEq old notHead.symm mem_cons_self mem
  · exact rings.apart sourceEq old notSource.symm (mem_cons_of_mem source inside) mem

/-- The head that the entries come from is stale. -/
theorem Rings.stale_source (different : head ≠ source) : Stale (links.splice source head) source := by
  have ring := rings.ring sourceEq
  have filled : ¬ links.Empty source := fun empty => notEmpty (ring.empty_iff.mp empty)
  obtain ⟨firstMem, lastMem⟩ := ring.ends_mem notEmpty
  have sourceOut := (nodup_cons.mp ring.distinct).1
  have nextSource := (rings.writes_splice sourceEq headEq notEmpty).next source fun mem =>
    (mem_cons.mp mem).elim different.symm sourceOut
  rw [Stale, nextSource, (splice_links filled (rings.ring headEq)).2, update_of_ne, update_self]
  · exact ⟨fun same => sourceOut (same ▸ firstMem), different⟩
  · exact fun same => rings.apart headEq sourceEq different mem_cons_self
      (same ▸ mem_cons_of_mem source firstMem)

theorem Rings.stale_splice (isStale : Stale links stale) (outside : Outside content stale) :
    Stale (links.splice source head) stale := by
  refine (rings.writes_splice sourceEq headEq notEmpty).keeps_stale isStale fun mem => ?_
  rcases mem_cons.mp mem with rfl | inside
  · exact outside _ [] headEq mem_cons_self
  · exact outside source entries sourceEq (mem_cons_of_mem source inside)

end Splice

theorem Stale.init (isStale : Stale links stale) (different : head ≠ stale) :
    Stale (links.init head) stale :=
  (writes_init links head).keeps_stale isStale different.symm

end QDaemon.Linked
