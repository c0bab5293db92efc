import Mathlib.Data.List.AList
import Custodia.PyValues

/-! # SubConsumers — consumers below consumers

    A consumer looks for the sub-consumer that a request is meant for along the
    trail of the request. The loop reads the trail with an iterator and pops
    the front of the SAME list: after `i` components have been followed it
    looks at the component with the index `2 i` of the trail.

    * `findHandler`: the lookup as it is written;
    * `follow`: the trail, one component after the other;
    * `follows_iff`: the loop follows the trail exactly if every second
      component says what the next one says. -/

namespace SubConsumers

open PosixPath PyValues

/-! ## The consumers -/

/-- The subs of each consumer; consumers are known by their identity. `root`
    is not read by the lookup. -/
abbrev Subs (ι : Type) := ι → AList (fun _ : Str => ι)

/-- What a consumer has under the name of a command: nothing, `None`, or a
    method. `getattr` tells the three apart, and only a method can be called. -/
inductive Attribute where
  | missing
  | none
  | method

/-- The class of each consumer, which errors name, and what it has under each
    name. Consumers are known by their identity, as one may be added in several
    places. -/
structure Objects (ι : Type) where
  className : ι → Str
  getattr : ι → Str → Attribute

variable {ι : Type}

/-- No consumer has a sub yet. -/
def noSubs : Subs ι := fun _ => ∅

/-- A call of `add_sub`: the consumer that is given a sub, the name, under which
    another sub may be already, and the sub. -/
structure AddSub (ι : Type) where
  consumer : ι
  name : Str
  sub : ι

/-- `HTTPConsumer.add_sub`. -/
def addSub [DecidableEq ι] (subs : Subs ι) (call : AddSub ι) : Subs ι :=
  Function.update subs call.consumer ((subs call.consumer).insert call.name call.sub)

/-- The subs after these calls. -/
def built [DecidableEq ι] (calls : List (AddSub ι)) : Subs ι := calls.foldl addSub noSubs

/-- `SUPPORTED_COMMANDS`. -/
def supportedCommands : List Str := ["GET", "PUT", "POST", "DELETE"]

/-! ## The lookup -/

/-- What the lookup reads of a request: its command and its trail, either of
    which may be missing. The trail is changed while it is looked at. -/
structure Request where
  command : Option Str
  trail : Option (List Str)

/-- A method, bound to its consumer: the consumer that was found last, and the
    command, which names the method. -/
structure Handler (ι : Type) where
  consumer : ι
  command : Str

/-- The loop over the trail, at the index `i` of its iterator: the consumer it
    ends at, and what is left of the trail. -/
def findLoop (subs : Subs ι) : ι → Nat → List Str → ι × List Str
  | base, _, [] => (base, [])
  | base, i, first :: trail =>
      match (first :: trail)[i]? with
      | none => (base, first :: trail)
      | some comp =>
          match (subs base).lookup comp with
          | some sub => findLoop subs sub (i + 1) trail
          | none => (base, first :: trail)

/-- `getattr(base, command)`, and the test of what it is. -/
def getHandler (objects : Objects ι) (base : ι) (command : Str) : Except Exc (Handler ι) :=
  match objects.getattr base command with
  | .missing => .error (.py .other (("'" : Str) ++ objects.className base
      ++ ("' object has no attribute '" : Str) ++ command ++ ("'" : Str)))
  | .none => .error (.http 400 none)
  | .method => .ok ⟨base, command⟩

/-- `HTTPConsumer._find_handler`: the handler, and what is left of
    `request['trail']`. -/
def findHandler (objects : Objects ι) (subs : Subs ι) (self : ι) (request : Request) :
    Except Exc (Handler ι) × Option (List Str) :=
  let command := request.command.getD "GET"
  if command ∉ supportedCommands then (.error (.http 501 none), request.trail)
  else
    match request.trail with
    | none => (getHandler objects self command, none)
    | some trail =>
        let found := findLoop subs self 0 trail
        (getHandler objects found.1 command, some found.2)

/-! ## Following the trail -/

/-- Follow the components of the trail as long as each one names a sub. -/
def follow (subs : Subs ι) : ι → List Str → ι × List Str
  | base, [] => (base, [])
  | base, comp :: trail =>
      match (subs base).lookup comp with
      | some sub => follow subs sub trail
      | none => (base, comp :: trail)

/-- How many components are followed. -/
def depth (subs : Subs ι) : ι → List Str → Nat
  | _, [] => 0
  | base, comp :: trail =>
      match (subs base).lookup comp with
      | some sub => depth subs sub trail + 1
      | none => 0

/-- The lookup returns the handler of the consumer that the trail leads to, and
    leaves the components after the last one followed. -/
def FollowsTrail (objects : Objects ι) (subs : Subs ι) (self : ι) (command : Str)
    (trail : List Str) : Prop :=
  findHandler objects subs self ⟨some command, some trail⟩
    = (.ok ⟨(follow subs self trail).1, command⟩, some (follow subs self trail).2)

/-- Every component that the loop looks at on its way says what the component
    to follow says, and the one it looks at last names no sub. -/
def Aligned (subs : Subs ι) (self : ι) (trail : List Str) : Prop :=
  (∀ i < depth subs self trail, trail[2 * i]? = trail[i]?)
    ∧ ∀ comp, trail[2 * depth subs self trail]? = some comp →
      (subs (follow subs self trail).1).lookup comp = none

/-- The consumers form a tree: each one is a sub in one place at most. -/
def IsTree (subs : Subs ι) : Prop :=
  ∀ base name base' name' sub, (subs base).lookup name = some sub →
    (subs base').lookup name' = some sub → base = base' ∧ name = name'

/-! ## Trees -/

/-- Consumers without subs are a tree. -/
theorem isTree_noSubs : IsTree (noSubs : Subs ι) := by
  intro base name base' name' sub h
  cases h

section Trees

variable [DecidableEq ι] {subs : Subs ι}

/-- After `add_sub` a sub is the new one, or was one before. -/
theorem lookup_addSub {call : AddSub ι} {base : ι} {name : Str} {sub : ι}
    (h : (addSub subs call base).lookup name = some sub) :
    (base = call.consumer ∧ name = call.name ∧ sub = call.sub)
      ∨ (subs base).lookup name = some sub := by
  by_cases hbase : base = call.consumer
  · rw [addSub, hbase, Function.update_self] at h
    by_cases hname : name = call.name
    · rw [hname, AList.lookup_insert] at h
      exact Or.inl ⟨hbase, hname, (Option.some.inj h).symm⟩
    · rw [AList.lookup_insert_ne hname] at h
      exact Or.inr (hbase ▸ h)
  · rw [addSub, Function.update_of_ne hbase] at h
    exact Or.inr h

/-- A consumer that is no sub yet may become one. -/
theorem isTree_addSub (h : IsTree subs) {call : AddSub ι}
    (hfresh : ∀ base name, (subs base).lookup name ≠ some call.sub) :
    IsTree (addSub subs call) := by
  intro base name base' name' sub hsub hsub'
  rcases lookup_addSub hsub with ⟨rfl, rfl, rfl⟩ | hold
  · rcases lookup_addSub hsub' with ⟨rfl, rfl, -⟩ | hold'
    · exact ⟨rfl, rfl⟩
    · exact absurd hold' (hfresh base' name')
  · rcases lookup_addSub hsub' with ⟨rfl, rfl, rfl⟩ | hold'
    · exact absurd hold (hfresh base name)
    · exact h base name base' name' sub hold hold'

/-- **Adding fresh subs one after the other keeps a tree**, by induction on the
    calls. -/
theorem isTree_foldl {calls : List (AddSub ι)} (h : IsTree subs)
    (hnodup : (calls.map AddSub.sub).Nodup)
    (hfresh : ∀ base name sub, (subs base).lookup name = some sub →
      sub ∉ calls.map AddSub.sub) : IsTree (calls.foldl addSub subs) := by
  induction calls generalizing subs with
  | nil => exact h
  | cons call calls ih =>
      obtain ⟨hnew, hnodup⟩ := List.nodup_cons.mp hnodup
      refine ih (isTree_addSub h ?_) hnodup ?_
      · intro base name hsub
        exact hfresh base name _ hsub List.mem_cons_self
      · intro base name sub hsub hmem
        rcases lookup_addSub hsub with ⟨-, -, rfl⟩ | hold
        · exact hnew hmem
        · exact hfresh base name sub hold (List.mem_cons_of_mem _ hmem)

/-- **Adding each consumer once builds a tree**, in which each of them is a sub
    in one place at most. -/
theorem isTree_built {calls : List (AddSub ι)} (h : (calls.map AddSub.sub).Nodup) :
    IsTree (built calls) := by
  refine isTree_foldl isTree_noSubs h ?_
  intro base name sub hsub
  cases hsub

end Trees

/-! ## One step -/

section Steps

variable {subs : Subs ι} {base sub : ι} {first comp : Str} {trail : List Str} {i : Nat}

/-- A name that is a sub leads on from there. -/
theorem follow_sub (h : (subs base).lookup first = some sub) :
    follow subs base (first :: trail) = follow subs sub trail := by
  rw [follow, h]

/-- A name that is no sub ends the way. -/
theorem follow_none (h : (subs base).lookup first = none) :
    follow subs base (first :: trail) = (base, first :: trail) := by
  rw [follow, h]

/-- Every sub on the way counts once. -/
theorem depth_sub (h : (subs base).lookup first = some sub) :
    depth subs base (first :: trail) = depth subs sub trail + 1 := by
  rw [depth, h]

/-- Where no sub is met, the depth is zero. -/
theorem depth_none (h : (subs base).lookup first = none) :
    depth subs base (first :: trail) = 0 := by
  rw [depth, h]

/-- A name that is a sub leads on, with one name less in the trail and an index
    that is one higher. -/
theorem findLoop_sub (hcomp : (first :: trail)[i]? = some comp)
    (hsub : (subs base).lookup comp = some sub) :
    findLoop subs base i (first :: trail) = findLoop subs sub (i + 1) trail := by
  simp only [findLoop, hcomp, hsub]

/-- Where the name that is looked at is no sub, the loop ends. -/
theorem findLoop_none
    (h : ∀ comp, (first :: trail)[i]? = some comp → (subs base).lookup comp = none) :
    findLoop subs base i (first :: trail) = (base, first :: trail) := by
  cases hcomp : (first :: trail)[i]? with
  | none => simp only [findLoop, hcomp]
  | some comp => simp only [findLoop, hcomp, h comp hcomp]

/-- The loop goes on with a sub, or stops. -/
theorem findLoop_cases (subs : Subs ι) (base : ι) (i : Nat) (first : Str) (trail : List Str) :
    (∃ comp sub, (first :: trail)[i]? = some comp ∧ (subs base).lookup comp = some sub)
    ∨ ∀ comp, (first :: trail)[i]? = some comp → (subs base).lookup comp = none := by
  cases hcomp : (first :: trail)[i]? with
  | none => exact Or.inr (fun comp h => by cases h)
  | some comp =>
      cases hsub : (subs base).lookup comp with
      | none =>
          refine Or.inr (fun comp' h => ?_)
          obtain rfl := Option.some.inj h
          exact hsub
      | some sub => exact Or.inl ⟨comp, sub, rfl, hsub⟩

/-- At the next index the loop is one more place ahead. -/
theorem getElem?_ahead (first : Str) (trail : List Str) (i j : Nat) :
    (first :: trail)[i + 2 * (j + 1)]? = trail[i + 1 + 2 * j]? := by
  rw [show i + 2 * (j + 1) = i + 1 + 2 * j + 1 by omega, List.getElem?_cons_succ]

end Steps

/-! ## What the loop follows -/

variable {subs : Subs ι}

/-- The trail is aligned for a loop at the index `i`, which looks at the
    component that is `i` places ahead of the front. -/
def AlignedAt (subs : Subs ι) (base : ι) (i : Nat) (trail : List Str) : Prop :=
  (∀ j < depth subs base trail, trail[i + 2 * j]? = trail[j]?)
    ∧ ∀ comp, trail[i + 2 * depth subs base trail]? = some comp →
      (subs (follow subs base trail).1).lookup comp = none

/-- At the beginning, nothing has been skipped. -/
theorem alignedAt_zero (base : ι) (trail : List Str) :
    AlignedAt subs base 0 trail ↔ Aligned subs base trail := by
  rw [AlignedAt, Aligned]
  simp only [Nat.zero_add]

/-- An empty trail is aligned with anything. -/
theorem alignedAt_nil {base : ι} {i : Nat} : AlignedAt subs base i [] :=
  ⟨fun j hj => absurd hj (Nat.not_lt_zero j), fun comp hcomp => by cases hcomp⟩

/-- One step of an aligned trail, at a sub. -/
theorem alignedAt_sub {base sub : ι} {first : Str} {trail : List Str} {i : Nat}
    (hsub : (subs base).lookup first = some sub) :
    AlignedAt subs base i (first :: trail)
      ↔ (first :: trail)[i]? = some first ∧ AlignedAt subs sub (i + 1) trail := by
  rw [AlignedAt, AlignedAt, depth_sub hsub, follow_sub hsub, getElem?_ahead]
  constructor
  · rintro ⟨hsame, hlast⟩
    refine ⟨hsame 0 (Nat.succ_pos _), fun j hj => ?_, hlast⟩
    have hnext := hsame (j + 1) (Nat.succ_lt_succ hj)
    rwa [getElem?_ahead, List.getElem?_cons_succ] at hnext
  · rintro ⟨hfirst, hsame, hlast⟩
    refine ⟨fun j hj => ?_, hlast⟩
    cases j with
    | zero => exact hfirst
    | succ j =>
        rw [getElem?_ahead, List.getElem?_cons_succ]
        exact hsame j (Nat.lt_of_succ_lt_succ hj)

/-- One step of an aligned trail, where nothing is followed. -/
theorem alignedAt_none {base : ι} {first : Str} {trail : List Str} {i : Nat}
    (hsub : (subs base).lookup first = none) :
    AlignedAt subs base i (first :: trail)
      ↔ ∀ comp, (first :: trail)[i]? = some comp → (subs base).lookup comp = none := by
  rw [AlignedAt, depth_none hsub, follow_none hsub, Nat.mul_zero, Nat.add_zero]
  exact and_iff_right (fun j hj => absurd hj (Nat.not_lt_zero j))

/-- **The loop follows an aligned trail** to its end, although it shortens the
    list that it goes over. -/
theorem findLoop_of_aligned {trail : List Str} {base : ι} {i : Nat}
    (h : AlignedAt subs base i trail) : findLoop subs base i trail = follow subs base trail := by
  induction trail generalizing base i with
  | nil => rfl
  | cons first trail ih =>
      cases hsub : (subs base).lookup first with
      | none => rw [follow_none hsub, findLoop_none ((alignedAt_none hsub).mp h)]
      | some sub =>
          obtain ⟨hfirst, hrest⟩ := (alignedAt_sub hsub).mp h
          rw [follow_sub hsub, findLoop_sub hfirst hsub]
          exact ih hrest

/-! ## Only an aligned trail is followed -/

/-- The consumer that these names lead to. -/
def reach (subs : Subs ι) : ι → List Str → Option ι
  | base, [] => some base
  | base, name :: names => ((subs base).lookup name).bind (fun sub => reach subs sub names)

/-- In a tree, a consumer is reached from one place only at each distance. -/
theorem reach_unique (h : IsTree subs) {names names' : List Str} {base base' x : ι}
    (hlength : names.length = names'.length) (hx : reach subs base names = some x)
    (hx' : reach subs base' names' = some x) : base = base' := by
  induction names generalizing base base' names' with
  | nil =>
      obtain rfl := List.length_eq_zero_iff.mp hlength.symm
      exact (Option.some.inj hx).trans (Option.some.inj hx').symm
  | cons name names ih =>
      cases names' with
      | nil => cases hlength
      | cons name' names' =>
          obtain ⟨sub, hsub, hrest⟩ := Option.bind_eq_some_iff.mp hx
          obtain ⟨sub', hsub', hrest'⟩ := Option.bind_eq_some_iff.mp hx'
          obtain rfl := ih (Nat.succ.inj hlength) hrest hrest'
          exact (h base name base' name' sub hsub hsub').1

/-- A walk along some names, one for each component that is taken away. -/
def Walked (subs : Subs ι) (base : ι) (trail : List Str) (found : ι × List Str) : Prop :=
  ∃ names, names.length + found.2.length = trail.length
    ∧ reach subs base names = some found.1

/-- Standing still is a way. -/
theorem walked_stop (base : ι) (trail : List Str) : Walked subs base trail (base, trail) :=
  ⟨[], Nat.zero_add _, rfl⟩

/-- One sub and a way from there are a way. -/
theorem Walked.step {base sub : ι} {name first : Str} {trail : List Str} {found : ι × List Str}
    (hsub : (subs base).lookup name = some sub) (h : Walked subs sub trail found) :
    Walked subs base (first :: trail) found := by
  obtain ⟨names, hlength, hreach⟩ := h
  refine ⟨name :: names, ?_, ?_⟩
  · rw [List.length_cons, List.length_cons, ← hlength]
    exact Nat.succ_add _ _
  · rw [reach, hsub]
    exact hreach

/-- Following the names of a trail walks along subs. -/
theorem walked_follow (trail : List Str) (base : ι) :
    Walked subs base trail (follow subs base trail) := by
  induction trail generalizing base with
  | nil => exact walked_stop base []
  | cons first trail ih =>
      cases hsub : (subs base).lookup first with
      | none =>
          rw [follow_none hsub]
          exact walked_stop base (first :: trail)
      | some sub =>
          rw [follow_sub hsub]
          exact (ih sub).step hsub

/-- The loop walks along subs too, whatever names it looks at. -/
theorem walked_findLoop (trail : List Str) (base : ι) (i : Nat) :
    Walked subs base trail (findLoop subs base i trail) := by
  induction trail generalizing base i with
  | nil => exact walked_stop base []
  | cons first trail ih =>
      rcases findLoop_cases subs base i first trail with ⟨comp, sub, hcomp, hsub⟩ | hstop
      · rw [findLoop_sub hcomp hsub]
        exact (ih sub (i + 1)).step hsub
      · rw [findLoop_none hstop]
        exact walked_stop base (first :: trail)

/-- No way makes a trail longer. -/
theorem Walked.length_le {base : ι} {trail : List Str} {found : ι × List Str}
    (h : Walked subs base trail found) : found.2.length ≤ trail.length := by
  obtain ⟨names, hlength, -⟩ := h
  omega

/-- Two walks along one trail that end alike have started alike. -/
theorem Walked.unique (h : IsTree subs) {base base' : ι} {trail : List Str}
    {found : ι × List Str} (hw : Walked subs base trail found)
    (hw' : Walked subs base' trail found) : base = base' := by
  obtain ⟨names, hlength, hreach⟩ := hw
  obtain ⟨names', hlength', hreach'⟩ := hw'
  exact reach_unique h (by omega) hreach hreach'

/-- **In a tree the loop follows no other trail**: where it finds what the trail
    leads to, with the same rest, the trail is aligned. -/
theorem aligned_of_findLoop (h : IsTree subs) {trail : List Str} {base : ι} {i : Nat}
    (hfound : findLoop subs base i trail = follow subs base trail) :
    AlignedAt subs base i trail := by
  induction trail generalizing base i with
  | nil => exact alignedAt_nil
  | cons first trail ih =>
      rcases findLoop_cases subs base i first trail with ⟨comp, sub, hcomp, hsub⟩ | hstop
      · rw [findLoop_sub hcomp hsub] at hfound
        have hwalked : Walked subs sub trail _ := walked_findLoop trail sub (i + 1)
        cases hfirst : (subs base).lookup first with
        | none =>
            rw [follow_none hfirst] at hfound
            have hle := hwalked.length_le
            rw [hfound, List.length_cons] at hle
            omega
        | some sub' =>
            rw [follow_sub hfirst] at hfound
            -- both walks end at one consumer, so they have taken the same step
            have hsame : sub = sub' := by
              rw [hfound] at hwalked
              exact hwalked.unique h (walked_follow trail sub')
            subst hsame
            obtain rfl := (h base comp base first sub hsub hfirst).2
            exact (alignedAt_sub hsub).mpr ⟨hcomp, ih hfound⟩
      · rw [findLoop_none hstop] at hfound
        cases hfirst : (subs base).lookup first with
        | none => exact (alignedAt_none hfirst).mpr hstop
        | some sub' =>
            rw [follow_sub hfirst] at hfound
            have hwalked : Walked subs sub' trail _ := walked_follow trail sub'
            have hle := hwalked.length_le
            rw [← hfound, List.length_cons] at hle
            omega

/-! ## The lookup -/

/-- For a supported command the handler is that of the consumer which the loop
    ends at. -/
theorem findHandler_supported (objects : Objects ι) (subs : Subs ι) (self : ι) {command : Str}
    (h : command ∈ supportedCommands) (trail : List Str) :
    findHandler objects subs self ⟨some command, some trail⟩
      = (getHandler objects (findLoop subs self 0 trail).1 command,
          some (findLoop subs self 0 trail).2) :=
  if_neg (not_not.mpr h)

/-- **HEADLINE — when the lookup follows the trail.** For every tree of
    consumers, every trail and every supported command that they implement, the
    handler and the rest of the trail are those of the consumer that the trail
    leads to exactly if every component the loop looks at on its way says what
    the component to follow says, and the one after them names no sub. -/
theorem follows_iff {objects : Objects ι} {self : ι} {command : Str} (trail : List Str)
    (htree : IsTree subs) (hcommand : command ∈ supportedCommands)
    (himpl : ∀ consumer, objects.getattr consumer command = .method) :
    FollowsTrail objects subs self command trail ↔ Aligned subs self trail := by
  have hhandler : ∀ consumer, getHandler objects consumer command = .ok ⟨consumer, command⟩ := by
    intro consumer
    rw [getHandler, himpl]
  rw [FollowsTrail, findHandler_supported objects subs self hcommand, hhandler, ← alignedAt_zero]
  constructor
  · intro h
    obtain ⟨hfirst, hsecond⟩ := Prod.mk.inj h
    have hreached := congrArg Handler.consumer (Except.ok.inj hfirst)
    exact aligned_of_findLoop htree (Prod.ext hreached (Option.some.inj hsecond))
  · intro h
    rw [findLoop_of_aligned h]

/-- **Where the subs have no subs**, as below `Root`, every trail is followed. -/
theorem findLoop_leaves {self : ι}
    (hleaf : ∀ name sub, (subs self).lookup name = some sub → ∀ other,
      (subs sub).lookup other = none) (trail : List Str) :
    findLoop subs self 0 trail = follow subs self trail := by
  refine findLoop_of_aligned ?_
  cases trail with
  | nil => exact alignedAt_nil
  | cons first trail =>
      cases hsub : (subs self).lookup first with
      | none =>
          refine (alignedAt_none hsub).mpr (fun comp hcomp => ?_)
          obtain rfl := Option.some.inj hcomp
          exact hsub
      | some sub =>
          refine (alignedAt_sub hsub).mpr ⟨rfl, ?_⟩
          cases trail with
          | nil => exact alignedAt_nil
          | cons second trail =>
              exact (alignedAt_none (hleaf first sub hsub second)).mpr
                (fun comp _ => hleaf first sub hsub comp)

/-- A root, its sub `a`, and the sub `b` of that. -/
def twoDeep : List (AddSub (Fin 3)) := [⟨0, "a", 1⟩, ⟨1, "b", 2⟩]

/-- Consumers that implement everything. -/
def plainObjects : Objects (Fin 3) := ⟨fun _ => "HTTPConsumer", fun _ _ => .method⟩

/-- The consumers of the demonstration are a tree. -/
theorem isTree_twoDeep : IsTree (built twoDeep) := isTree_built (by decide)

/-- The sub of the sub is not found, and its name is left in the trail. -/
theorem not_follows_twoDeep :
    ¬ ∀ (calls : List (AddSub (Fin 3))) (objects : Objects (Fin 3)) (self : Fin 3)
        (command : Str) (trail : List Str), IsTree (built calls) →
        command ∈ supportedCommands →
        (∀ consumer, objects.getattr consumer command = .method) →
        FollowsTrail objects (built calls) self command trail := by
  intro hall
  have hfollows := hall twoDeep plainObjects 0 "GET" ["a", "b"] isTree_twoDeep (by decide)
    (fun _ => rfl)
  have hcode : findHandler plainObjects (built twoDeep) 0 ⟨some "GET", some ["a", "b"]⟩
      = (Except.ok ⟨1, "GET"⟩, some ["b".toList]) := rfl
  have hfollow : follow (built twoDeep) 0 ["a", "b"] = (2, []) := rfl
  rw [FollowsTrail, hcode, hfollow] at hfollows
  have hreached := congrArg Handler.consumer (Except.ok.inj (Prod.mk.inj hfollows).1)
  exact absurd hreached (by decide)

/-- In this tree, a GET follows its trail exactly if the trail is aligned with
    the subs. -/
theorem follows_iff_twoDeep :
    IsTree (built twoDeep) ∧ "GET".toList ∈ supportedCommands
    ∧ (∀ consumer, plainObjects.getattr consumer "GET" = .method)
    ∧ (FollowsTrail plainObjects (built twoDeep) 0 "GET" ["a", "x", "y"]
      ↔ Aligned (built twoDeep) 0 ["a", "x", "y"]) :=
  ⟨isTree_twoDeep, by decide, fun _ => rfl,
    follows_iff _ isTree_twoDeep (by decide) (fun _ => rfl)⟩

end SubConsumers
