import QDaemon.Timer.Placement

/-!
# The lists of a timer wheel

The links of a wheel represent, for each head in use, the list of its entries.
The fields `wheel_level` and `slot` of a timer say which slot it is stored in,
and the two views agree.  A slot whose entries have been spliced away by a
cascade, and the head `expired` after timers have been fired, are stale; the
lists of the other heads are well formed as long as no stale head is used.
-/

namespace QDaemon.Timer

open Option List Function Linked

universe u

variable {T : Type u}

/-- The fields of a timer name this slot. -/
def StoredAt (fields : QdTimer) (level slot : Nat) : Prop :=
  fields.slot = slot ∧ fields.wheelLevel = level

instance (fields : QdTimer) (level slot : Nat) : Decidable (StoredAt fields level slot) :=
  inferInstanceAs (Decidable (_ ∧ _))

variable {level slot : Nat}
variable {list : List (Node T)}

theorem StoredAt.unique {fields : QdTimer} {otherLevel otherSlot : Nat}
    (first : StoredAt fields level slot) (second : StoredAt fields otherLevel otherSlot) :
    level = otherLevel ∧ slot = otherSlot := by
  obtain ⟨slotEq, levelEq⟩ := first
  obtain ⟨otherSlotEq, otherLevelEq⟩ := second
  omega

theorem not_storedAt {fields : QdTimer} (out : fields.slot = -1) (level slot : Nat) :
    ¬ StoredAt fields level slot := by
  rintro ⟨slotEq, -⟩
  omega

/-- The entries of the heads in use. -/
abbrev Content (T : Type u) := Node T → Option (List (Node T))

/-- The head that holds the timers of a slot: during a cascade those of one slot
are in the local list. -/
def home (moved : Option (Nat × Nat)) (level slot : Nat) : Node T :=
  if moved = some (level, slot) then .tmp else .slot level slot

theorem home_none (level slot : Nat) : home none level slot = (.slot level slot : Node T) := by
  simp [home]

variable {moved : Option (Nat × Nat)}

theorem home_of_ne (other : moved ≠ some (level, slot)) :
    home moved level slot = (.slot level slot : Node T) :=
  if_neg other

theorem home_inj {otherLevel otherSlot : Nat}
    (same : (home moved level slot : Node T) = home moved otherLevel otherSlot) :
    level = otherLevel ∧ slot = otherSlot := by
  unfold home at same
  split at same
  next mine =>
    split at same
    next theirs =>
      rw [mine] at theirs
      simpa using theirs
    · simp at same
  · split at same
    · simp at same
    · simpa using same

/-- No slot's timers are in the lists of the final phase of a tick. -/
theorem home_ne (level slot : Nat) :
    home moved level slot ≠ (.expired : Node T) ∧ home moved level slot ≠ (.fired : Node T) := by
  unfold home
  split <;> simp

/-- The links represent the content, and the fields of the timers agree with
it. -/
structure Represents (links : Links (Node T)) (timers : T → QdTimer) (content : Content T)
    (moved : Option (Nat × Nat)) : Prop where
  rings : Rings links content
  entries : ∀ {head list}, content head = some list → ∀ node ∈ list, ∃ timer, node = .timer timer
  heads : ∀ timer, content (.timer timer) = none
  stored : ∀ {level slot list}, content (home moved level slot) = some list →
    ∀ timer, .timer timer ∈ list ↔ StoredAt (timers timer) level slot
  inSlot : ∀ timer, (timers timer).slot = -1 ∨ ∃ level slot list, level < 4 ∧ slot < 256 ∧
    StoredAt (timers timer) level slot ∧ content (home moved level slot) = some list
  tmpInUse : content .tmp ≠ none → moved ≠ none
  spliced : ∀ {level slot}, moved = some (level, slot) → content (.slot level slot) = none
  staleSlot : ∀ {level slot}, level < 4 → slot < 256 → content (.slot level slot) = none →
    Stale links (.slot level slot)
  staleExpired : content .expired = none → Stale links .expired

/-- The part of the representation that does not mention the fields of timers. -/
structure Lists (links : Links (Node T)) (content : Content T) : Prop where
  rings : Rings links content
  entries : ∀ {head list}, content head = some list → ∀ node ∈ list, ∃ timer, node = .timer timer
  heads : ∀ timer, content (.timer timer) = none
  staleSlot : ∀ {level slot}, level < 4 → slot < 256 → content (.slot level slot) = none →
    Stale links (.slot level slot)
  staleExpired : content .expired = none → Stale links .expired

section Views

variable {links : Links (Node T)} {timers : T → QdTimer} {content : Content T}
  {moved : Option (Nat × Nat)}

/-- Between cascades a slot holds the timers whose fields name it. -/
theorem Represents.mem_slot (rep : Represents links timers content none)
    (eq : content (.slot level slot) = some list) (timer : T) :
    .timer timer ∈ list ↔ StoredAt (timers timer) level slot := by
  exact rep.stored eq timer

/-- During a cascade the local list holds the timers whose fields name the slot. -/
theorem Represents.mem_tmp (rep : Represents links timers content (some (level, slot)))
    (eq : content .tmp = some list) (timer : T) :
    .timer timer ∈ list ↔ StoredAt (timers timer) level slot := by
  have homeEq : home (some (level, slot)) level slot = (.tmp : Node T) := if_pos rfl
  rw [← homeEq] at eq
  exact rep.stored eq timer

section

variable (rep : Represents links timers content moved)
include rep

/-- A head that is not in use belongs to no list. -/
theorem Represents.outside_of_none {node : Node T} (unused : content node = none)
    (notTimer : ∀ timer, node ≠ .timer timer) : Outside content node := by
  intro head list eq mem
  rcases mem_cons.mp mem with rfl | inside
  · rw [unused] at eq
    cases eq
  · obtain ⟨timer, nodeEq⟩ := rep.entries eq node inside
    exact notTimer timer nodeEq

/-- A timer that names no slot and is in neither of the lists of a tick belongs
to no list. -/
theorem Represents.outside_of_free {timer : T} (out : (timers timer).slot = -1)
    (notExpired : ∀ list, content .expired = some list → .timer timer ∉ list)
    (notFired : ∀ list, content .fired = some list → .timer timer ∉ list) :
    Outside content (.timer timer) := by
  have notStored := not_storedAt out
  intro head list eq mem
  rcases mem_cons.mp mem with rfl | inside
  · rw [rep.heads timer] at eq
    cases eq
  · cases head with
    | slot level slot =>
      by_cases spliced : moved = some (level, slot)
      · rw [rep.spliced spliced] at eq
        cases eq
      · rw [← home_of_ne spliced] at eq
        exact notStored level slot ((rep.stored eq timer).mp inside)
    | expired => exact notExpired list eq inside
    | fired => exact notFired list eq inside
    | tmp =>
      have some_ : moved ≠ none := rep.tmpInUse (by rw [eq]; simp)
      obtain ⟨⟨level, slot⟩, movedEq⟩ := ne_none_iff_exists'.mp some_
      subst movedEq
      exact notStored level slot ((rep.mem_tmp eq timer).mp inside)
    | timer other =>
      rw [rep.heads other] at eq
      cases eq

/-- A head that is not stale is in use. -/
theorem Represents.exists_of_not_stale (levelLt : level < 4) (slotLt : slot < 256)
    (fresh : ¬ Stale links (.slot level slot)) :
    ∃ list, content (.slot level slot) = some list := by
  rw [← ne_none_iff_exists']
  exact fun unused => fresh (rep.staleSlot levelLt slotLt unused)

/-- Fields other than the slot and the level do not matter. -/
theorem Represents.congr {changed : T → QdTimer}
    (same : ∀ timer, (changed timer).slot = (timers timer).slot ∧
      (changed timer).wheelLevel = (timers timer).wheelLevel) :
    Represents links changed content moved := by
  have storedAt (timer : T) (level slot : Nat) :
      StoredAt (changed timer) level slot ↔ StoredAt (timers timer) level slot := by
    rw [StoredAt, (same timer).1, (same timer).2, StoredAt]
  exact { rep with
    stored := fun eq timer => (rep.stored eq timer).trans (storedAt timer _ _).symm
    inSlot := by
      intro timer
      rw [(same timer).1]
      simp only [storedAt]
      exact rep.inSlot timer }

end

end Views

/-! ## Operations -/

section Operations

variable [DecidableEq T] {links : Links (Node T)} {timers : T → QdTimer} {content : Content T}
  {moved : Option (Nat × Nat)} {timer : T} {fields : QdTimer}

variable {head : Node T}

theorem update_eq_none {other : Node T} (eq : update content head (some list) other = none) :
    content other = none := by
  by_cases same : other = head
  · subst same
    rw [update_self] at eq
    cases eq
  · rwa [update_of_ne same] at eq

section

variable (rep : Represents links timers content moved)
include rep

/-- Replace the list of one head by one that differs in one timer, whose fields
name the slot of the head exactly if it is in the new list. -/
theorem Represents.replace {old new : List (Node T)} {changed : Links (Node T)}
    (headEq : content head = some old) (rings : Rings changed (update content head (some new)))
    (stale : ∀ {node}, content node = none → (∀ timer, node ≠ .timer timer) →
      Stale links node → Stale changed node) (entries : ∀ node ∈ new, ∃ timer, node = .timer timer)
    (others : ∀ other, other ≠ timer → (.timer other ∈ new ↔ .timer other ∈ old))
    (apart : ∀ {other list}, other ≠ head → content other = some list → .timer timer ∉ list)
    (place : ∀ level slot,
      StoredAt fields level slot ↔ home moved level slot = head ∧ .timer timer ∈ new)
    (valid : fields.slot = -1 ∨ ∃ level slot, level < 4 ∧ slot < 256 ∧ StoredAt fields level slot) :
    Represents changed (update timers timer fields)
      (update content head (some new)) moved := by
  have notHead {node : Node T} (unused : content node = none) : node ≠ head := by
    rintro rfl
    rw [unused] at headEq
    cases headEq
  exact {
    rings := rings
    entries := by
      intro other list eq
      rcases update_eq_some eq with ⟨-, listEq⟩ | ⟨-, before⟩
      · cases listEq
        exact entries
      · exact rep.entries before
    heads := by
      intro other
      rw [update_of_ne (notHead (rep.heads other))]
      exact rep.heads other
    stored := by
      intro level slot list eq other
      by_cases same : other = timer
      · subst same
        rw [update_self, place]
        rcases update_eq_some eq with ⟨homeEq, listEq⟩ | ⟨different, before⟩
        · cases listEq
          exact ⟨fun mem => ⟨homeEq, mem⟩, fun both => both.2⟩
        · exact iff_of_false (apart different before) fun both => different both.1
      · rw [update_of_ne same]
        rcases update_eq_some eq with ⟨homeEq, listEq⟩ | ⟨-, before⟩
        · cases listEq
          rw [← homeEq] at headEq
          rw [others other same, rep.stored headEq other]
        · exact rep.stored before other
    inSlot := by
      intro other
      by_cases same : other = timer
      · subst same
        rw [update_self]
        refine valid.imp_right ?_
        rintro ⟨level, slot, levelLt, slotLt, storedAt⟩
        refine ⟨level, slot, new, levelLt, slotLt, storedAt, ?_⟩
        rw [((place level slot).mp storedAt).1, update_self]
      · rw [update_of_ne same]
        refine (rep.inSlot other).imp_right ?_
        rintro ⟨level, slot, list, levelLt, slotLt, storedAt, eq⟩
        by_cases homeEq : home moved level slot = head
        · refine ⟨level, slot, new, levelLt, slotLt, storedAt, ?_⟩
          rw [homeEq, update_self]
        · exact ⟨level, slot, list, levelLt, slotLt, storedAt, by
            rw [update_of_ne homeEq, eq]⟩
    tmpInUse := by
      intro inUse
      refine rep.tmpInUse fun unused => inUse ?_
      rw [update_of_ne (notHead unused), unused]
    spliced := by
      intro level slot movedEq
      have unused := rep.spliced movedEq
      rw [update_of_ne (notHead unused), unused]
    staleSlot := by
      intro level slot levelLt slotLt eq
      have unused := update_eq_none eq
      exact stale unused (by simp) (rep.staleSlot levelLt slotLt unused)
    staleExpired := by
      intro eq
      have unused := update_eq_none eq
      exact stale unused (by simp) (rep.staleExpired unused) }

/-- Take a timer out of its list; afterwards its fields name no slot. -/
theorem Represents.delInit {front back : List (Node T)}
    (headEq : content head = some (front ++ .timer timer :: back)) (out : fields.slot = -1) :
    Represents (links.delInit (.timer timer)) (update timers timer fields)
      (update content head (some (front ++ back))) moved := by
  have gone : .timer timer ∉ front ++ back := by
    have distinct := (nodup_cons.mp (rep.rings.ring headEq).distinct).2
    exact (nodup_cons.mp (nodup_middle.mp distinct)).1
  refine rep.replace headEq (rep.rings.delInit headEq) (fun unused notTimer isStale => ?_)
    (fun node mem => ?_) (fun other different => ?_) (fun different eq mem => ?_)
    (fun level slot => iff_of_false (not_storedAt out level slot) fun both => gone both.2)
    (.inl out)
  · exact rep.rings.stale_delInit headEq isStale (rep.outside_of_none unused notTimer)
  · exact rep.entries headEq node (((sublist_cons_self _ _).append_left _).subset mem)
  · simp [different]
  · exact rep.rings.apart headEq eq (fun same => different same.symm)
      (mem_cons_of_mem head (mem_append_right _ mem_cons_self))
      (mem_cons_of_mem _ mem)

/-- Insert a timer that is in no list; its fields name the slot of the head. -/
theorem Represents.addTail (headEq : content head = some list)
    (outside : Outside content (.timer timer))
    (place : ∀ level slot, StoredAt fields level slot ↔ home moved level slot = head)
    (valid : fields.slot = -1 ∨ ∃ level slot, level < 4 ∧ slot < 256 ∧ StoredAt fields level slot) :
    Represents (links.addTail (.timer timer) head) (update timers timer fields)
      (update content head (some (list ++ [.timer timer]))) moved := by
  have added : .timer timer ∈ list ++ [.timer timer] := by simp
  refine rep.replace headEq (rep.rings.addTail headEq outside)
    (fun unused notTimer isStale => ?_) (fun node mem => ?_) (fun other different => ?_)
    (fun different eq mem => outside _ _ eq (mem_cons_of_mem _ mem))
    (fun level slot => (place level slot).trans (and_iff_left added).symm) valid
  · exact rep.rings.stale_addTail headEq isStale (rep.outside_of_none unused notTimer)
      (notTimer timer)
  · rcases mem_append.mp mem with before | new
    · exact rep.entries headEq node before
    · exact ⟨timer, mem_singleton.mp new⟩
  · simp [different]

/-- Store a timer that is in no list in a slot. -/
theorem Represents.store (slotEq : content (.slot level slot) = some list)
    (outside : Outside content (.timer timer)) (levelLt : level < 4) (slotLt : slot < 256)
    (storedAt : StoredAt fields level slot) :
    Represents (links.addTail (.timer timer) (.slot level slot))
      (update timers timer fields)
      (update content (.slot level slot) (some (list ++ [.timer timer]))) moved := by
  have notMoved : moved ≠ some (level, slot) := by
    intro movedEq
    rw [rep.spliced movedEq] at slotEq
    cases slotEq
  refine rep.addTail slotEq outside (fun otherLevel otherSlot => ?_)
    (.inr ⟨level, slot, levelLt, slotLt, storedAt⟩)
  rw [← home_of_ne notMoved]
  constructor
  · intro otherAt
    obtain ⟨rfl, rfl⟩ := otherAt.unique storedAt
    rfl
  · intro homeEq
    obtain ⟨rfl, rfl⟩ := home_inj homeEq
    exact storedAt

/-- Put a timer that is in no list into the expired list. -/
theorem Represents.expire (expiredEq : content .expired = some list)
    (outside : Outside content (.timer timer)) (out : fields.slot = -1) :
    Represents (links.addTail (.timer timer) .expired) (update timers timer fields)
      (update content .expired (some (list ++ [.timer timer]))) moved := by
  refine rep.addTail expiredEq outside (fun level slot => ?_) (.inl out)
  exact iff_of_false (not_storedAt out level slot) (home_ne level slot).1

end

end Operations

/-! ## Local lists -/

section Local

variable [DecidableEq T] {links : Links (Node T)} {timers : T → QdTimer} {content : Content T}
  {moved : Option (Nat × Nat)} {source stack : Node T} {list : List (Node T)}

omit [DecidableEq T] in
/-- Other nodes are not local heads. -/
theorem ne_stack {node : Node T} (isStack : stack = .tmp ∨ stack = .fired) (notTmp : node ≠ .tmp)
    (notFired : node ≠ .fired) : stack ≠ node := by
  rcases isStack with rfl | rfl
  · exact notTmp.symm
  · exact notFired.symm

section

variable (rep : Represents links timers content moved)
include rep

/-- Initialising a local head that then stays empty changes nothing. -/
theorem Represents.init (unused : content stack = none) (isStack : stack = .tmp ∨ stack = .fired) :
    Represents (links.init stack) timers content moved := by
  have outside := rep.outside_of_none unused fun _ => ne_stack isStack (by simp) (by simp)
  have rings := (rep.rings.init outside).forget stack
  rw [update_idem, ← unused, update_eq_self] at rings
  exact { rep with
    rings := rings
    staleSlot := fun levelLt slotLt eq =>
      (rep.staleSlot levelLt slotLt eq).init (ne_stack isStack (by simp) (by simp))
    staleExpired := fun eq => (rep.staleExpired eq).init (ne_stack isStack (by simp) (by simp)) }

/-- Splicing a list into a local head. -/
theorem Represents.rings_splice (sourceEq : content source = some list)
    (unused : content stack = none) (isStack : stack = .tmp ∨ stack = .fired)
    (notEmpty : list ≠ []) : Rings ((links.init stack).splice source stack)
        (update (update content source none) stack (some list)) ∧
      Stale ((links.init stack).splice source stack) source ∧
      ∀ {node}, content node = none → (∀ timer, node ≠ .timer timer) → node ≠ stack →
        Stale links node → Stale ((links.init stack).splice source stack) node := by
  have different : stack ≠ source := by
    rintro rfl
    rw [unused] at sourceEq
    cases sourceEq
  have rings := rep.rings.init
    (rep.outside_of_none unused fun _ => ne_stack isStack (by simp) (by simp))
  have sourceNow : update content stack (some []) source = some list := by
    rw [update_of_ne different.symm, sourceEq]
  have stackNow : update content stack (some []) stack = some [] := update_self _ _ _
  refine ⟨?_, rings.stale_source sourceNow stackNow notEmpty different,
    fun nodeUnused nodeNotTimer notStack isStale => ?_⟩
  · have spliced := rings.splice sourceNow stackNow notEmpty different
    rwa [update_comm different, update_idem] at spliced
  · refine rings.stale_splice sourceNow stackNow notEmpty (isStale.init notStack.symm) ?_
    intro head entries eq mem
    rcases update_eq_some eq with ⟨rfl, listEq⟩ | ⟨-, before⟩
    · cases listEq
      exact notStack (mem_singleton.mp mem)
    · exact rep.outside_of_none nodeUnused nodeNotTimer head entries before mem

/-- The lists after a head has been spliced into a local one. -/
theorem Represents.lists_splice (sourceEq : content source = some list)
    (unused : content stack = none) (isStack : stack = .tmp ∨ stack = .fired)
    (notEmpty : list ≠ []) : Lists ((links.init stack).splice source stack)
      (update (update content source none) stack (some list)) := by
  obtain ⟨rings, staleSource, stale⟩ := rep.rings_splice sourceEq unused isStack notEmpty
  -- a head that is not in use afterwards is the source, or was not in use before
  have staleHead {node : Node T} (notTimer : ∀ timer, node ≠ .timer timer) (notStack : node ≠ stack)
      (eq : update (update content source none) stack (some list) node = none)
      (before : content node = none → Stale links node) :
      Stale ((links.init stack).splice source stack) node := by
    rw [update_of_ne notStack] at eq
    by_cases same : node = source
    · rw [same]
      exact staleSource
    · rw [update_of_ne same] at eq
      exact stale eq notTimer notStack (before eq)
  exact {
    rings := rings
    entries := by
      intro head entries eq
      rcases update_eq_some eq with ⟨-, listEq⟩ | ⟨-, before⟩
      · cases listEq
        exact rep.entries sourceEq
      · rcases update_eq_some before with ⟨-, impossible⟩ | ⟨-, old⟩
        · cases impossible
        · exact rep.entries old
    heads := by
      intro timer
      have notSource : .timer timer ≠ source := by
        rintro rfl
        rw [rep.heads timer] at sourceEq
        cases sourceEq
      rw [update_of_ne (ne_stack isStack (by simp) (by simp)).symm, update_of_ne notSource]
      exact rep.heads timer
    staleSlot := by
      intro level slot levelLt slotLt eq
      exact staleHead (by simp) (ne_stack isStack (by simp) (by simp)).symm eq
        (rep.staleSlot levelLt slotLt)
    staleExpired := fun eq =>
      staleHead (by simp) (ne_stack isStack (by simp) (by simp)).symm eq rep.staleExpired }

/-- The lists when a local head is not used any more. -/
theorem Represents.lists_forget (isStack : stack = .tmp ∨ stack = .fired) :
    Lists links (update content stack none) := by
  have kept {node : Node T} (notTmp : node ≠ .tmp) (notFired : node ≠ .fired) :
      update content stack none node = content node :=
    update_of_ne (ne_stack isStack notTmp notFired).symm _ _
  exact {
    rings := rep.rings.forget stack
    entries := by
      intro head entries eq
      rcases update_eq_some eq with ⟨-, impossible⟩ | ⟨-, old⟩
      · cases impossible
      · exact rep.entries old
    heads := fun timer => (kept (by simp) (by simp)).trans (rep.heads timer)
    staleSlot := fun levelLt slotLt eq =>
      rep.staleSlot levelLt slotLt ((kept (by simp) (by simp)).symm.trans eq)
    staleExpired := fun eq => rep.staleExpired ((kept (by simp) (by simp)).symm.trans eq) }

end

/-- The start of a cascade: the timers of a slot move to the local list, and the
slot's head is stale. -/
theorem Represents.beginCascade (rep : Represents links timers content none)
    (sourceEq : content (.slot level slot) = some list) (unused : content .tmp = none)
    (notEmpty : list ≠ []) : Represents ((links.init .tmp).splice (.slot level slot) .tmp) timers
      (update (update content (.slot level slot) none) .tmp (some list))
      (some (level, slot)) := by
  have lists := rep.lists_splice sourceEq unused (.inl rfl) notEmpty
  -- the head of each slot's timers before and after
  have homeEq {otherLevel otherSlot : Nat} :
      update (update content (.slot level slot) none) .tmp (some list)
        (home (some (level, slot)) otherLevel otherSlot) = content (.slot otherLevel otherSlot) := by
    by_cases same : (level, slot) = (otherLevel, otherSlot)
    · have atTmp : home (some (level, slot)) otherLevel otherSlot = (.tmp : Node T) :=
        if_pos (congrArg some same)
      rw [atTmp, update_self, ← sourceEq]
      simp only [Prod.mk.injEq] at same
      rw [same.1, same.2]
    · have atSlot : home (some (level, slot)) otherLevel otherSlot =
          (.slot otherLevel otherSlot : Node T) :=
        if_neg fun equal => same (some.inj equal)
      rw [atSlot, update_of_ne (by simp), update_of_ne]
      rintro ⟨⟩
      exact same rfl
  exact { lists with
    stored := by
      intro otherLevel otherSlot entries eq
      rw [homeEq] at eq
      exact rep.stored eq
    inSlot := by
      intro timer
      simp only [homeEq]
      simpa [home_none] using rep.inSlot timer
    tmpInUse := fun _ => by simp
    spliced := by
      rintro otherLevel otherSlot ⟨⟩
      rw [update_of_ne (by simp), update_self] }

/-- The end of a cascade: the local list is empty. -/
theorem Represents.endCascade (rep : Represents links timers content (some (level, slot)))
    (tmpEq : content .tmp = some []) : Represents links timers (update content .tmp none) none := by
  exact { rep.lists_forget (.inl rfl) with
    stored := by
      intro otherLevel otherSlot entries eq
      rw [home_none, update_of_ne (by simp)] at eq
      have other : some (level, slot) ≠ some (otherLevel, otherSlot) := by
        rintro ⟨⟩
        rw [rep.spliced rfl] at eq
        cases eq
      rw [← home_of_ne other] at eq
      exact rep.stored eq
    inSlot := by
      intro timer
      refine (rep.inSlot timer).imp_right ?_
      rintro ⟨otherLevel, otherSlot, entries, levelLt, slotLt, storedAt, eq⟩
      have other : some (level, slot) ≠ some (otherLevel, otherSlot) := by
        rintro ⟨⟩
        exact absurd ((rep.mem_tmp tmpEq timer).mpr storedAt) (by simp)
      rw [home_of_ne other] at eq
      refine ⟨otherLevel, otherSlot, entries, levelLt, slotLt, storedAt, ?_⟩
      rw [home_none, update_of_ne (by simp), eq]
    tmpInUse := by simp
    spliced := by simp }

variable (rep : Represents links timers content moved)
include rep

omit [DecidableEq T] in
/-- Where the timers are stored does not depend on the lists of the final phase. -/
theorem Represents.of_lists {after : Links (Node T)} {next : Content T} (lists : Lists after next)
    (kept : ∀ head, head ≠ .expired → head ≠ .fired → next head = content head) :
    Represents after timers next moved := by
  have homeEq (level slot : Nat) : next (home moved level slot) = content (home moved level slot) :=
    kept _ (home_ne level slot).1 (home_ne level slot).2
  exact { lists with
    stored := by
      intro level slot entries eq
      rw [homeEq] at eq
      exact rep.stored eq
    inSlot := by
      intro timer
      simp only [homeEq]
      exact rep.inSlot timer
    tmpInUse := by
      rw [kept _ (by simp) (by simp)]
      exact rep.tmpInUse
    spliced := by
      intro level slot movedEq
      rw [kept _ (by simp) (by simp)]
      exact rep.spliced movedEq }

/-- The final phase of a tick: the expired timers move to the local list, and the
head `expired` is stale. -/
theorem Represents.beginFire
    (sourceEq : content .expired = some list) (unused : content .fired = none)
    (notEmpty : list ≠ []) : Represents ((links.init .fired).splice .expired .fired) timers
      (update (update content .expired none) .fired (some list)) moved := by
  apply rep.of_lists (rep.lists_splice sourceEq unused (.inr rfl) notEmpty)
  intro head notExpired notFired
  rw [update_of_ne notFired, update_of_ne notExpired]

/-- The final phase when nothing has expired: the local list is empty. -/
theorem Represents.beginEmpty (unused : content .fired = none) :
    Represents (links.init .fired) timers (update content .fired (some [])) moved := by
  have initialised := rep.init unused (.inr rfl)
  refine rep.of_lists ?_ fun head _ notFired => update_of_ne notFired _ _
  exact {
    rings := rep.rings.init (rep.outside_of_none unused (by simp))
    entries := by
      intro head entries eq
      rcases update_eq_some eq with ⟨-, listEq⟩ | ⟨-, before⟩
      · cases listEq
        exact fun _ mem => absurd mem not_mem_nil
      · exact rep.entries before
    heads := by
      intro timer
      exact rep.heads timer
    staleSlot := fun levelLt slotLt eq =>
      initialised.staleSlot levelLt slotLt (update_eq_none eq)
    staleExpired := fun eq => initialised.staleExpired (update_eq_none eq) }

/-- The local list of the final phase is not used any more. -/
theorem Represents.endFire : Represents links timers (update content .fired none) moved :=
  rep.of_lists (rep.lists_forget (.inr rfl)) fun _ _ notFired =>
    update_of_ne notFired _ _

end Local

end QDaemon.Timer
