import Mathlib.Data.List.Perm.Subperm
import MenuActions.Proofs.Schedule.GoingOn

/-!
# Chronicles

Who did what in a crowd.  A chronicle lists the processes that were begun and the tasks that they have
started, and every change of the world with the one that made it.  Read for one of them, it is a course of
that process; read as a whole, it leads from the first world to the present one.

`exists_chronicle` says that every crowd has a chronicle, and that it goes on with the crowd.  The step is
`Of.goOn`: one of those who wait goes on, and its account, which nobody else has a part in, gets longer.
What is told of the courses of the processes that may be begun is thereby true of every change that was
ever made (`Accounts.tells`, `Accounts.every`).
-/

namespace MenuActions.Schedule

variable {W ι R : Type}

/-- The waits of a crowd: those of the processes in the foreground, which may go on at once, and those of
the tasks. -/
def Crowd.waits (c : Crowd W ι R) : List (Wait W ι R) :=
  c.callers.map Wait.permit ++ c.machine.waits

/-- The processes and tasks that were there, by number, and what was done: each deed with the number of
the one that did it, or without a number when it was the host. -/
structure Chronicle (W ι R : Type) where
  works : List (Process W ι R)
  entries : List (Option Nat × Deed W ι R)

namespace Chronicle

/-- What one of them has done, or the host. -/
def trail (chronicle : Chronicle W ι R) (owner : Option Nat) : List (Deed W ι R) :=
  chronicle.entries.filterMap fun entry => if entry.1 = owner then some entry.2 else none

/-- The chronicle with more deeds of one of them, and more processes. -/
def add (chronicle : Chronicle W ι R) (owner : Option Nat) (more : List (Deed W ι R))
    (bodies : List (Process W ι R)) : Chronicle W ι R :=
  ⟨chronicle.works ++ bodies, chronicle.entries ++ more.map fun deed => (owner, deed)⟩

section Trail

variable {chronicle : Chronicle W ι R} {owner other : Option Nat} {more : List (Deed W ι R)}
  {bodies : List (Process W ι R)}

@[simp] theorem trail_add_self :
    (chronicle.add owner more bodies).trail owner = chronicle.trail owner ++ more := by
  have hmore : (more.map fun deed => (owner, deed)).filterMap
      (fun entry => if entry.1 = owner then some entry.2 else none) = more := by
    rw [List.filterMap_map]
    simp
  rw [trail, add, List.filterMap_append, hmore]
  rfl

theorem trail_add_of_ne (h : owner ≠ other) :
    (chronicle.add owner more bodies).trail other = chronicle.trail other := by
  have hmore : (more.map fun deed => (owner, deed)).filterMap
      (fun entry => if entry.1 = other then some entry.2 else none) = [] := by
    rw [List.filterMap_map]
    simp [h]
  rw [trail, add, List.filterMap_append, hmore, List.append_nil]
  rfl

theorem mem_trail {deed : Deed W ι R} :
    deed ∈ chronicle.trail owner ↔ (owner, deed) ∈ chronicle.entries := by
  rw [trail, List.mem_filterMap]
  constructor
  · rintro ⟨⟨found, deed'⟩, hmem, hdeed⟩
    split at hdeed
    · rename_i howner
      obtain rfl := Option.some.inj hdeed
      exact howner ▸ hmem
    · exact absurd hdeed (by simp)
  · exact fun h => ⟨_, h, if_pos rfl⟩

/-- What was done before is still what was done. -/
theorem trail_subset_add (deed : Deed W ι R) (h : deed ∈ chronicle.trail other) :
    deed ∈ (chronicle.add owner more bodies).trail other :=
  mem_trail.mpr (List.mem_append_left _ (mem_trail.mp h))

end Trail

/-- A chronicle accounts for a world that has come of a first one. -/
structure Accounts (begins : Process W ι R → Prop) (first world : W) (chronicle : Chronicle W ι R) :
    Prop where
  /-- All deeds in order lead to the present world. -/
  leads : Leads first (chronicle.entries.map Prod.snd) world
  /-- Deeds with a number are those of a process. -/
  owned : ∀ i deed, (some i, deed) ∈ chronicle.entries → i < chronicle.works.length
  /-- Every process was begun, or started by one before it. -/
  origin : ∀ i p, chronicle.works[i]? = some p →
    begins p ∨ ∃ j, j < i ∧ .starts p ∈ chronicle.trail (some j)
  /-- What a process has done is a course of it. -/
  course : ∀ (i : Nat) (p : Process W ι R), chronicle.works[i]? = some p →
    ∃ q, p.Course (fun _ => True) (chronicle.trail (some i)) q

/-- Some processes wait where their courses have led them, each under a number of its own. -/
structure Live (chronicle : Chronicle W ι R) (live : List (Nat × Wait W ι R)) : Prop where
  alone : (live.map Prod.fst).Nodup
  halts : ∀ entry ∈ live, ∃ p q : Process W ι R, chronicle.works[entry.1]? = some p ∧
    p.Course (fun _ => True) (chronicle.trail (some entry.1)) q ∧ q.Halts entry.2

/-- A chronicle tells how a crowd has come about: it accounts for the world, and those who wait are among
its processes. -/
structure Of (begins : Process W ι R → Prop) (first : W) (c : Crowd W ι R)
    (chronicle : Chronicle W ι R) : Prop where
  accounts : chronicle.Accounts begins first c.machine.world
  live : ∃ live, chronicle.Live live ∧ c.waits.Subperm (live.map Prod.snd)

section Add

variable {begins : Process W ι R → Prop} {first world last : W} {chronicle : Chronicle W ι R}
  {owner : Option Nat} {i : Nat} {p q : Process W ι R} {more : List (Deed W ι R)}
  {bodies : List (Process W ι R)} {live : List (Nat × Wait W ι R)}

/-- Nothing was done yet under the numbers that come next. -/
theorem Accounts.trail_eq_nil (h : chronicle.Accounts begins first world) {j : Nat}
    (hj : chronicle.works.length ≤ j) : chronicle.trail (some j) = [] := by
  rw [List.eq_nil_iff_forall_not_mem]
  intro deed hdeed
  have hlt := h.owned j deed (mem_trail.mp hdeed)
  omega

/-- A process of the chronicle is among the old ones, or it is one of those that were added. -/
theorem works_add {j : Nat} (h : (chronicle.add owner more bodies).works[j]? = some p) :
    chronicle.works[j]? = some p ∨ chronicle.works.length ≤ j ∧ p ∈ bodies := by
  rcases Nat.lt_or_ge j chronicle.works.length with hlt | hge
  · rw [add, List.getElem?_append_left hlt] at h
    exact Or.inl h
  · rw [add, List.getElem?_append_right hge] at h
    exact Or.inr ⟨hge, List.mem_of_getElem? h⟩

/-- What may be added to an account: deeds of the host or of one of the processes, along its course, and
processes that are begun or that it has started. -/
structure Fits (begins : Process W ι R → Prop) (chronicle : Chronicle W ι R) (owner : Option Nat)
    (more : List (Deed W ι R)) (bodies : List (Process W ι R)) : Prop where
  known : ∀ i, owner = some i → i < chronicle.works.length
  course : ∀ i p, owner = some i → chronicle.works[i]? = some p →
    ∃ q, p.Course (fun _ => True) (chronicle.trail (some i) ++ more) q
  origin : ∀ body ∈ bodies, begins body ∨ ∃ i, owner = some i ∧ .starts body ∈ more

theorem Accounts.add (h : chronicle.Accounts begins first world)
    (hfits : chronicle.Fits begins owner more bodies) (hleads : Leads world more last) :
    (chronicle.add owner more bodies).Accounts begins first last := by
  refine ⟨?_, fun j deed hdeed => ?_, fun j body hbody => ?_, fun j body hbody => ?_⟩
  · have hmore : (more.map fun deed => (owner, deed)).map Prod.snd = more := by
      rw [List.map_map]
      exact List.map_id more
    rw [Chronicle.add, List.map_append, hmore]
    exact leads_append.mpr ⟨world, h.leads, hleads⟩
  · rw [Chronicle.add, List.length_append]
    refine Nat.lt_add_right _ ?_
    rcases List.mem_append.mp hdeed with hold | hnew
    · exact h.owned j deed hold
    · obtain ⟨_, -, hsame⟩ := List.mem_map.mp hnew
      exact hfits.known j (Prod.mk.inj hsame).1
  · rcases works_add hbody with hold | ⟨hnew, hmem⟩
    · rcases h.origin j body hold with hbegun | ⟨k, hk, hstarts⟩
      · exact Or.inl hbegun
      · exact Or.inr ⟨k, hk, trail_subset_add _ hstarts⟩
    · rcases hfits.origin body hmem with hbegun | ⟨i, rfl, hstarts⟩
      · exact Or.inl hbegun
      · refine Or.inr ⟨i, Nat.lt_of_lt_of_le (hfits.known i rfl) hnew, ?_⟩
        rw [trail_add_self]
        exact List.mem_append_right _ hstarts
  · rcases works_add hbody with hold | ⟨hnew, -⟩
    · by_cases howner : owner = some j
      · subst howner
        rw [trail_add_self]
        exact hfits.course j body rfl hold
      · rw [trail_add_of_ne howner]
        exact h.course j body hold
    · have hne : owner ≠ some j := fun hsame => absurd (hfits.known j hsame) (Nat.not_lt.mpr hnew)
      rw [trail_add_of_ne hne, h.trail_eq_nil hnew]
      exact ⟨body, .rest body⟩

/-- Processes that have just come: they may go on under the numbers that come next. -/
def newcomers (chronicle : Chronicle W ι R) (bodies : List (Process W ι R)) :
    List (Nat × Wait W ι R) :=
  (bodies.zipIdx chronicle.works.length).map fun entry => (entry.2, .permit entry.1)

theorem newcomers_fst (chronicle : Chronicle W ι R) (bodies : List (Process W ι R)) :
    (chronicle.newcomers bodies).map Prod.fst =
      List.range' chronicle.works.length bodies.length := by
  rw [newcomers, List.map_map]
  exact List.zipIdx_map_snd chronicle.works.length bodies

theorem newcomers_snd (chronicle : Chronicle W ι R) (bodies : List (Process W ι R)) :
    (chronicle.newcomers bodies).map Prod.snd = bodies.map Wait.permit := by
  rw [newcomers, List.map_map]
  show ((bodies.zipIdx chronicle.works.length).map fun entry => Wait.permit entry.1) = _
  rw [← Function.comp_def Wait.permit Prod.fst, ← List.map_map, List.zipIdx_map_fst]

theorem Live.lt_length (h : chronicle.Live live) {entry : Nat × Wait W ι R} (hentry : entry ∈ live) :
    entry.1 < chronicle.works.length := by
  obtain ⟨p, q, hp, -⟩ := h.halts entry hentry
  exact (List.getElem?_eq_some_iff.mp hp).1

/-- Those who have done nothing wait where they did, and the newcomers are with them. -/
theorem Live.add (h : chronicle.Live live) (haccounts : chronicle.Accounts begins first world)
    (hfits : chronicle.Fits begins owner more bodies) (hothers : ∀ entry ∈ live, owner ≠ some entry.1) :
    (chronicle.add owner more bodies).Live (live ++ chronicle.newcomers bodies) := by
  refine ⟨?_, fun entry hentry => ?_⟩
  · rw [List.map_append, newcomers_fst]
    refine List.nodup_append.mpr ⟨h.alone, List.nodup_range', fun j hj k hk => ?_⟩
    obtain ⟨entry, hentry, rfl⟩ := List.mem_map.mp hj
    have hold := h.lt_length hentry
    have hnew := (List.mem_range'_1.mp hk).1
    omega
  · rcases List.mem_append.mp hentry with hold | hnew
    · obtain ⟨p, q, hp, hcourse, hhalts⟩ := h.halts entry hold
      refine ⟨p, q, ?_, ?_, hhalts⟩
      · rw [Chronicle.add, List.getElem?_append_left (h.lt_length hold)]
        exact hp
      · rwa [trail_add_of_ne (hothers entry hold)]
    · obtain ⟨⟨body, j⟩, hbody, rfl⟩ := List.mem_map.mp hnew
      obtain ⟨hj, -, hfound⟩ := List.mem_zipIdx hbody
      have hne : owner ≠ some j := fun hsame => absurd (hfits.known j hsame) (Nat.not_lt.mpr hj)
      refine ⟨body, body, ?_, ?_, .permit body⟩
      · rw [Chronicle.add, List.getElem?_append_right hj, hfound]
        exact List.getElem?_eq_getElem _
      · rw [trail_add_of_ne hne, haccounts.trail_eq_nil hj]
        exact .rest body

/-- A process that has no entry among those who wait may wait again. -/
theorem Live.rest (h : chronicle.Live live) {rested : List (Wait W ι R)}
    (hp : chronicle.works[i]? = some p)
    (hcourse : p.Course (fun _ => True) (chronicle.trail (some i)) q)
    (hhalts : ∀ wait ∈ rested, q.Halts wait) (halone : rested.length ≤ 1)
    (hi : i ∉ live.map Prod.fst) : chronicle.Live (live ++ rested.map fun wait => (i, wait)) := by
  refine ⟨?_, fun entry hentry => ?_⟩
  · have hself : ((rested.map fun wait => (i, wait)).map Prod.fst).Nodup := by
      rcases rested with _ | ⟨wait, _ | ⟨other, rested⟩⟩
      · exact List.nodup_nil
      · simp
      · exact absurd halone (by simp)
    rw [List.map_append]
    refine List.nodup_append.mpr ⟨h.alone, hself, fun j hj k hk hsame => hi ?_⟩
    obtain ⟨_, hentry, rfl⟩ := List.mem_map.mp hk
    obtain ⟨_, -, rfl⟩ := List.mem_map.mp hentry
    have hown : j = i := hsame
    exact hown ▸ hj
  · rcases List.mem_append.mp hentry with hold | hself
    · exact h.halts entry hold
    · obtain ⟨wait, hwait, rfl⟩ := List.mem_map.mp hself
      exact ⟨p, q, hp, hcourse, hhalts wait hwait⟩

end Add

/-- A chronicle goes on: processes and deeds are added, and what the host does is of some kind. -/
structure Continues (changes : W → W → Prop) (chronicle later : Chronicle W ι R) : Prop where
  works : chronicle.works <+: later.works
  entries : ∃ new, later.entries = chronicle.entries ++ new ∧
    ∀ deed, (none, deed) ∈ new → ∃ before after, deed = .changes before after ∧ changes before after

namespace Continues

variable {changes : W → W → Prop} {chronicle later last : Chronicle W ι R}

theorem refl (chronicle : Chronicle W ι R) : Continues changes chronicle chronicle :=
  ⟨List.prefix_rfl, [], (List.append_nil _).symm, fun _ h => absurd h List.not_mem_nil⟩

theorem trans (h : Continues changes chronicle later) (h' : Continues changes later last) :
    Continues changes chronicle last := by
  obtain ⟨new, hnew, hhost⟩ := h.entries
  obtain ⟨more, hmore, hhost'⟩ := h'.entries
  refine ⟨h.works.trans h'.works, new ++ more, ?_, fun deed hdeed => ?_⟩
  · rw [hmore, hnew, List.append_assoc]
  · exact (List.mem_append.mp hdeed).elim (hhost deed) (hhost' deed)

/-- Deeds with a number are not the host's; those of the host must be of the kind. -/
theorem add (owner : Option Nat) {more : List (Deed W ι R)} (bodies : List (Process W ι R))
    (hhost : owner = none → ∀ deed ∈ more, ∃ before after, deed = .changes before after ∧
      changes before after) : Continues changes chronicle (chronicle.add owner more bodies) := by
  refine ⟨List.prefix_append _ _, _, rfl, fun deed hdeed => ?_⟩
  obtain ⟨_, hmore, hsame⟩ := List.mem_map.mp hdeed
  obtain ⟨rfl, rfl⟩ := Prod.mk.inj hsame
  exact hhost rfl _ hmore

end Continues

/-! ## The steps of a crowd -/

namespace Of

variable {begins : Process W ι R → Prop} {changes : W → W → Prop} {first : W} {c c' : Crowd W ι R}
  {chronicle : Chronicle W ι R}

/-- When nothing was done and nobody has come, the chronicle is still that of the crowd. -/
theorem of_subperm (h : chronicle.Of begins first c) (hworld : c'.machine.world = c.machine.world)
    (hwaits : c'.waits.Subperm c.waits) : chronicle.Of begins first c' := by
  obtain ⟨live, hlive, hamong⟩ := h.live
  exact ⟨hworld ▸ h.accounts, live, hlive, hwaits.trans hamong⟩

/-- One of those who wait goes on. -/
theorem goOn (h : chronicle.Of begins first c) {wait : Wait W ι R} {rest : List (Wait W ι R)}
    (hwaits : c.waits.Perm (wait :: rest))
    (hgoes : ∀ q : Process W ι R, q.Halts wait → ∃ trail bodies rested,
      q.GoesOn c.machine.world c'.machine.world trail bodies rested ∧
        c'.waits.Perm (rest ++ (bodies.map Wait.permit ++ rested))) :
    ∃ later, chronicle.Continues changes later ∧ later.Of begins first c' := by
  obtain ⟨live, hlive, hamong⟩ := h.live
  -- One of the entries is that of the wait; the others cover the rest.
  have hmem : wait ∈ live.map Prod.snd :=
    hamong.subset (hwaits.mem_iff.mpr List.mem_cons_self)
  obtain ⟨⟨i, wait⟩, hentry, rfl⟩ := List.mem_map.mp hmem
  obtain ⟨before, after, rfl⟩ := List.append_of_mem hentry
  have hperm : (before ++ (i, wait) :: after).Perm ((i, wait) :: (before ++ after)) :=
    List.perm_middle
  have hrest : rest.Subperm ((before ++ after).map Prod.snd) :=
    (List.subperm_cons wait).mp
      ((hwaits.symm.subperm.trans hamong).trans (hperm.map Prod.snd).subperm)
  obtain ⟨hi, halone⟩ : i ∉ (before ++ after).map Prod.fst ∧ ((before ++ after).map Prod.fst).Nodup :=
    List.nodup_cons.mp ((hperm.map Prod.fst).nodup_iff.mp hlive.alone)
  have hothers : chronicle.Live (before ++ after) :=
    ⟨halone, fun entry hmem =>
      hlive.halts entry (hperm.mem_iff.mpr (List.mem_cons_of_mem _ hmem))⟩
  obtain ⟨p, q, hp, hcourse, hhalts⟩ := hlive.halts (i, wait) hentry
  obtain ⟨trail, bodies, rested, hgoes, hafter⟩ := hgoes q hhalts
  obtain ⟨q', hq', hrested⟩ := hgoes.course
  have hlt : i < chronicle.works.length := (List.getElem?_eq_some_iff.mp hp).1
  have hfits : chronicle.Fits begins (some i) trail bodies := by
    refine ⟨fun j hj => Option.some.inj hj ▸ hlt, fun j p' hj hp' => ?_, fun body hbody =>
      Or.inr ⟨i, rfl, hgoes.started body hbody⟩⟩
    obtain rfl := Option.some.inj hj
    obtain rfl := Option.some.inj (hp.symm.trans hp')
    exact ⟨q', hcourse.trans hq'⟩
  have hadded : (chronicle.add (some i) trail bodies).Live
      ((before ++ after) ++ chronicle.newcomers bodies) :=
    hothers.add h.accounts hfits fun entry hmem hsame =>
      hi (Option.some.inj hsame ▸ List.mem_map_of_mem hmem)
  have hkept : (chronicle.add (some i) trail bodies).works[i]? = some p := by
    rw [Chronicle.add, List.getElem?_append_left hlt]
    exact hp
  have hnew : i ∉ ((before ++ after) ++ chronicle.newcomers bodies).map Prod.fst := by
    rw [List.map_append, newcomers_fst, List.mem_append, List.mem_range'_1]
    exact fun hmem => hmem.elim hi fun hnew => absurd hnew.1 (Nat.not_le.mpr hlt)
  refine ⟨chronicle.add (some i) trail bodies, .add _ bodies fun hnone => absurd hnone (by simp),
    h.accounts.add hfits hgoes.leads, _,
    hadded.rest hkept (trail_add_self ▸ hcourse.trans hq') hrested hgoes.alone hnew, ?_⟩
  have hself : (rested.map fun wait => (i, wait)).map Prod.snd = rested := by
    rw [List.map_map]
    exact List.map_id rested
  rw [List.map_append, hself, List.map_append, newcomers_snd, List.append_assoc]
  exact hafter.subperm.trans (hrest.append (List.Subperm.refl _))

/-- The host begins processes and changes the world. -/
theorem outside (h : chronicle.Of begins first c) {trail : List (Deed W ι R)}
    {bodies : List (Process W ι R)} (hleads : Leads c.machine.world trail c'.machine.world)
    (hhost : ∀ deed ∈ trail, ∃ before after, deed = .changes before after ∧ changes before after)
    (hbegins : ∀ body ∈ bodies, begins body)
    (hwaits : c'.waits.Perm (c.waits ++ bodies.map Wait.permit)) :
    ∃ later, chronicle.Continues changes later ∧ later.Of begins first c' := by
  obtain ⟨live, hlive, hamong⟩ := h.live
  have hfits : chronicle.Fits begins none trail bodies :=
    ⟨fun _ hi => absurd hi (by simp), fun _ _ hi => absurd hi (by simp),
      fun body hbody => Or.inl (hbegins body hbody)⟩
  refine ⟨chronicle.add none trail bodies, .add none bodies fun _ => hhost,
    h.accounts.add hfits hleads, _, hlive.add h.accounts hfits fun _ _ => by simp, ?_⟩
  rw [List.map_append, newcomers_snd]
  exact hwaits.subperm.trans (hamong.append (List.Subperm.refl _))

variable [DecidableEq ι]

/-- Something happens on the machine. -/
theorem turn {event : Event W ι R} {m : Machine W ι R} (h : chronicle.Of begins first c)
    (hturn : c.machine.Turn event m) :
    ∃ later, chronicle.Continues changes later ∧ later.Of begins first ⟨m, c.callers⟩ := by
  -- What is not done by a task changes nothing, and at most takes waits away.
  have hstill : ∀ {m : Machine W ι R}, m.world = c.machine.world → m.tasks.Sublist c.machine.tasks →
      ∃ later, chronicle.Continues changes later ∧ later.Of begins first ⟨m, c.callers⟩ := by
    intro m hworld htasks
    refine ⟨chronicle, .refl chronicle, h.of_subperm hworld ?_⟩
    exact (List.Sublist.append_left (htasks.map Task.wait) _).subperm
  cases hturn with
  | @goesOn task before after htasks _ _ =>
      have hwaits : c.waits.Perm (task.wait :: (c.callers.map Wait.permit ++
          (before ++ after).map Task.wait)) := by
        rw [Crowd.waits, Machine.waits, htasks, List.map_append, List.map_cons, List.map_append,
          ← List.append_assoc, ← List.append_assoc]
        exact List.perm_middle
      refine h.goOn hwaits fun q hq => ?_
      obtain ⟨trail, bodies, rested, hgoes, hafter⟩ :=
        Machine.goesOn_resume task { c.machine with tasks := before ++ after } hq
      refine ⟨trail, bodies, rested, hgoes, ?_⟩
      rw [Crowd.waits, hafter, ← List.append_assoc]
      exact List.Perm.refl _
  | passes => exact hstill rfl (List.Sublist.refl _)
  | interrupts =>
      unfold Machine.raiseInterrupt
      split
      · exact hstill rfl (List.Sublist.refl _)
      · exact hstill rfl (List.Sublist.refl _)
  | closes pool => exact hstill rfl (List.Sublist.refl _)
  | drops htasks => exact hstill rfl (sublist_of_eq htasks)
  | clears pool => exact hstill rfl List.filter_sublist

omit [DecidableEq ι] in
/-- A process in the foreground does its next thing. -/
theorem advances {p p' : Process W ι R} {before after : List (Process W ι R)} {m : Machine W ι R}
    (h : chronicle.Of begins first c) (hcallers : c.callers = before ++ p :: after)
    (hadvances : c.machine.Advances p p' m) :
    ∃ later, chronicle.Continues changes later ∧
      later.Of begins first ⟨m, before ++ p' :: after⟩ := by
  obtain ⟨trail, bodies, hgoes, hafter⟩ := Machine.goesOn_advances hadvances
  have hwaits : c.waits.Perm (.permit p :: ((before ++ after).map Wait.permit ++ c.machine.waits)) := by
    rw [Crowd.waits, hcallers]
    exact (List.perm_middle.map Wait.permit).append_right _
  refine h.goOn hwaits fun q hq => ⟨trail, bodies, [.permit p'], ?_, ?_⟩
  · cases hq
    exact hgoes
  · have hfront : ((before ++ p' :: after).map Wait.permit).Perm
        (.permit p' :: (before ++ after).map Wait.permit) := List.perm_middle.map Wait.permit
    have hback : ((before ++ after).map Wait.permit ++ c.machine.waits) ++
        (bodies.map Wait.permit ++ [.permit p']) = ((before ++ after).map Wait.permit ++
          (c.machine.waits ++ bodies.map Wait.permit)) ++ [.permit p'] := by
      simp only [List.append_assoc]
    rw [Crowd.waits, hafter, hback]
    exact (hfront.append_right _).trans (List.perm_append_singleton _ _).symm

/-- A chronicle goes on with its crowd, by one step. -/
theorem step (h : chronicle.Of begins first c) (hstep : Crowd.Step begins changes c c') :
    ∃ later, chronicle.Continues changes later ∧ later.Of begins first c' := by
  cases hstep with
  | turn hturn => exact h.turn hturn
  | @begun p hp =>
      have hbegins : ∀ body ∈ [p], begins body := fun body hbody =>
        List.mem_singleton.mp hbody ▸ hp
      refine h.outside (.nil _) (fun _ hdeed => absurd hdeed List.not_mem_nil) hbegins ?_
      exact (List.perm_append_singleton (.permit p) c.waits).symm
  | advances hcallers hadvances => exact h.advances hcallers hadvances
  | @leaves p before after hcallers =>
      refine ⟨chronicle, .refl chronicle, h.of_subperm rfl ?_⟩
      exact (List.Sublist.append_right ((sublist_of_eq hcallers).map Wait.permit) _).subperm
  | @host w hw =>
      refine h.outside (.changes (.nil w)) (fun deed hdeed => ?_)
        (fun body (hbody : body ∈ []) => absurd hbody List.not_mem_nil) ?_
      · exact ⟨_, _, List.mem_singleton.mp hdeed, hw⟩
      · rw [List.map_nil, List.append_nil]
        exact List.Perm.refl _

/-- A chronicle goes on with its crowd. -/
theorem reaches (h : chronicle.Of begins first c) (hreaches : Crowd.Reaches begins changes c c') :
    ∃ later, chronicle.Continues changes later ∧ later.Of begins first c' := by
  induction hreaches with
  | refl => exact ⟨chronicle, .refl chronicle, h⟩
  | tail _ hstep ih =>
      obtain ⟨middle, hcontinues, hmiddle⟩ := ih
      obtain ⟨later, hgoes, hlater⟩ := hmiddle.step hstep
      exact ⟨later, hcontinues.trans hgoes, hlater⟩

end Of

/-! ## Reading a chronicle -/

section Reading

variable {begins : Process W ι R → Prop} {changes : W → W → Prop} {first world : W}
  {chronicle : Chronicle W ι R}

/-- What is true of the processes that may be begun is true of all that were ever there. -/
theorem Accounts.tells (h : chronicle.Accounts begins first world) {story : Story W ι R}
    (hbegins : ∀ p, begins p → p.Tells story) {i : Nat} {p : Process W ι R}
    (hp : chronicle.works[i]? = some p) : p.Tells story := by
  -- A task was started by one with a lower number, in a course of that one.
  induction i using Nat.strongRecOn generalizing p with
  | ind i ih =>
      rcases h.origin i p hp with hbegun | ⟨j, hj, hstarts⟩
      · exact hbegins p hbegun
      · obtain ⟨starter, hstarter⟩ : ∃ starter, chronicle.works[j]? = some starter :=
          ⟨_, List.getElem?_eq_getElem (h.owned j _ (mem_trail.mp hstarts))⟩
        obtain ⟨q, hcourse⟩ := h.course j starter hstarter
        exact (ih j hj hstarter).started hcourse hstarts

/-- What is true of every change that the processes make, and of the changes of the host, is true of every
change. -/
theorem Accounts.every (h : chronicle.Accounts begins first world) {kind : W → W → Prop}
    (hbegins : ∀ p, begins p → p.Tells (.every kind)) {owner : Option Nat} {before after : W}
    (hentry : (owner, .changes before after) ∈ chronicle.entries)
    (hhost : owner = none → kind before after) : kind before after := by
  cases owner with
  | none => exact hhost rfl
  | some i =>
      obtain ⟨p, hp⟩ : ∃ p, chronicle.works[i]? = some p :=
        ⟨_, List.getElem?_eq_getElem (h.owned i _ hentry)⟩
      obtain ⟨q, hcourse⟩ := h.course i p hp
      exact (h.tells hbegins hp).part hcourse before after (mem_trail.mpr hentry)

variable [DecidableEq ι]

/-- Every crowd that comes of a machine without tasks has a chronicle, in which the host does only what
it may. -/
theorem exists_chronicle {m : Machine W ι R} {c : Crowd W ι R} (htasks : m.tasks = [])
    (h : Crowd.Reaches begins changes ⟨m, []⟩ c) :
    ∃ chronicle : Chronicle W ι R, chronicle.Of begins m.world c ∧
      ∀ deed ∈ chronicle.trail none, ∃ before after, deed = .changes before after ∧
        changes before after := by
  have hstart : Of begins m.world ⟨m, []⟩ (⟨[], []⟩ : Chronicle W ι R) := by
    refine ⟨⟨.nil _, fun _ _ h => absurd h List.not_mem_nil, fun _ _ h => absurd h (by simp),
      fun _ _ h => absurd h (by simp)⟩, [], ⟨List.nodup_nil, fun _ h => absurd h List.not_mem_nil⟩, ?_⟩
    rw [Crowd.waits, Machine.waits, htasks]
    exact List.Subperm.refl []
  obtain ⟨later, hcontinues, hlater⟩ := hstart.reaches h
  obtain ⟨new, hnew, hhost⟩ := hcontinues.entries
  refine ⟨later, hlater, fun deed hdeed => hhost deed ?_⟩
  have hmem := mem_trail.mp hdeed
  rwa [hnew, List.nil_append] at hmem

end Reading

end Chronicle

end MenuActions.Schedule
