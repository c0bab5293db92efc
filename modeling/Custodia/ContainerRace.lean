import Custodia.ContainerKeys

/-! # ContainerRace — an entry is written while its container is deleted

    The race in the store's own terms, without programs: the writer of the
    entry `e` and the DELETE of the container `c` around it are two small
    machines, and every move is ONE store call.

    * `WriterMove`, `DeleteMove`: everything a call of the two can do;
    * `inv_move`: what holds whatever happens;
    * `safe_move`: what holds until the DELETE overtakes the writer;
    * `lost_of_overtakes`, `lost_move`: what is left when it does. -/

namespace ContainerRace

open PosixPath PyValues SqliteStore ContainerKeys

/-! ## The two machines -/

/-- Who moves. -/
inductive Role where
  | writer
  | delete
  deriving DecidableEq

/-- Where a PUT or POST stands: before its parent check, about to make its
    namespace, about to write its entry, done. -/
inductive WriterPhase where
  | start
  | making
  | writing
  | written
  | refused
  deriving DecidableEq

/-- Where the DELETE stands: before its `list`, about to `cut`, done. -/
inductive DeletePhase where
  | start
  | cutting
  | removed
  | refused
  deriving DecidableEq

/-- The race: both machines, and the table they share. -/
structure Race where
  writer : WriterPhase
  delete : DeletePhase
  store : Table

section Machines

variable (c e : Str) (ok : Prop)

/-- One call of the writer; `ok` says that its value can be stored. -/
inductive WriterMove : WriterPhase → Table → WriterPhase → Table → Prop where
  | found {t : Table} (h : Visible t c) : WriterMove .start t .writing t
  | missing {t : Table} : WriterMove .start t .making t
  | denied {t : Table} : WriterMove .start t .refused t
  | make {t : Table} : WriterMove .making t .writing (t.insert c (.text []))
  | beaten {t : Table} : WriterMove .making t .refused t
  | write {t : Table} {v : SqlValue} (hok : ok) (hfree : e ∉ t) :
      WriterMove .writing t .written (t.insert e v)
  | fail {t : Table} (h : ok → e ∈ t) : WriterMove .writing t .refused t
  | idle {p : WriterPhase} {t : Table} (h : p = .written ∨ p = .refused) : WriterMove p t p t

/-- One call of the DELETE. -/
inductive DeleteMove : DeletePhase → Table → DeletePhase → Table → Prop where
  | empty {t : Table} (h : ¬ HasChild t c) : DeleteMove .start t .cutting t
  | denied {t : Table} : DeleteMove .start t .refused t
  | cut {t : Table} (h : c ∈ t) : DeleteMove .cutting t .removed (t.erase c)
  | gone {t : Table} (h : c ∉ t) : DeleteMove .cutting t .refused t
  | idle {p : DeletePhase} {t : Table} (h : p = .removed ∨ p = .refused) : DeleteMove p t p t

/-- One call of either. -/
inductive Move : Role → Race → Race → Prop where
  | writer {r : Race} {p : WriterPhase} {t : Table}
      (h : WriterMove c e ok r.writer r.store p t) : Move .writer r ⟨p, r.delete, t⟩
  | delete {r : Race} {p : DeletePhase} {t : Table}
      (h : DeleteMove c r.delete r.store p t) : Move .delete r ⟨r.writer, p, t⟩

/-- What always holds: the entry is there once written, and while the DELETE
    is about to cut, only the writer can have put something into the
    container. -/
structure Inv (r : Race) : Prop where
  stored : r.writer = .written → ok ∧ e ∈ r.store
  sole : r.delete = .cutting → HasChild r.store c → r.writer = .written

/-- The DELETE is about to cut the container, and the writer, its parent check
    behind it, has stored the entry or is about to. -/
structure Overtakes (r : Race) : Prop where
  cutting : r.delete = .cutting
  there : c ∈ r.store
  last : ¬ HasParent (r.store.erase c) c
  passed : e ∈ r.store ∨ r.writer = .writing

/-- After the DELETE has removed the container: it is there again, or it is
    empty and the writer has to check its parent again. -/
def Safe (r : Race) : Prop :=
  r.delete = .removed →
    HasParent r.store c ∨ (¬ HasChild r.store c ∧ r.writer ≠ .writing)

/-- The container is removed under the entry, written or about to be. -/
structure Lost (r : Race) : Prop where
  removed : r.delete = .removed
  gone : ¬ HasParent r.store c
  entry : r.writer = .writing ∧ e ∉ r.store ∨ r.writer = .written ∧ e ∈ r.store

end Machines

/-! ## What a move keeps -/

variable {c e : Str} {ok : Prop}

theorem inv_writer {r : Race} {p : WriterPhase} {t : Table} (h : Inv c e ok r)
    (hmove : WriterMove c e ok r.writer r.store p t) :
    Inv c e ok ⟨p, r.delete, t⟩ := by
  obtain ⟨w, d, s⟩ := r
  obtain ⟨hstored, hsole⟩ := h
  -- before the write nothing is in the container while the DELETE is cutting
  have hempty : w ≠ .written → d = .cutting → ¬ HasChild s c :=
    fun hw hd hc => hw (hsole hd hc)
  cases hmove with
  | found hv => exact ⟨(fun h => nomatch h), fun hd hc => absurd hc (hempty nofun hd)⟩
  | missing => exact ⟨(fun h => nomatch h), fun hd hc => absurd hc (hempty nofun hd)⟩
  | denied => exact ⟨(fun h => nomatch h), fun hd hc => absurd hc (hempty nofun hd)⟩
  | make =>
      refine ⟨(fun h => nomatch h), fun hd hc => ?_⟩
      rcases hasChild_insert.mp hc with hself | hc
      · exact absurd hself not_beneath_self
      · exact absurd hc (hempty nofun hd)
  | beaten => exact ⟨(fun h => nomatch h), fun hd hc => absurd hc (hempty nofun hd)⟩
  | write hok hfree =>
      exact ⟨fun _ => ⟨hok, (AList.mem_insert _).mpr (Or.inl rfl)⟩, fun _ _ => rfl⟩
  | fail hfull => exact ⟨(fun h => nomatch h), fun hd hc => absurd hc (hempty nofun hd)⟩
  | idle hdone => exact ⟨hstored, hsole⟩

theorem inv_delete {r : Race} {p : DeletePhase} {t : Table} (he : Beneath c e)
    (h : Inv c e ok r) (hmove : DeleteMove c r.delete r.store p t) :
    Inv c e ok ⟨r.writer, p, t⟩ := by
  obtain ⟨w, d, s⟩ := r
  obtain ⟨hstored, hsole⟩ := h
  cases hmove with
  | empty hleaf => exact ⟨hstored, fun _ hc => absurd hc hleaf⟩
  | denied => exact ⟨hstored, fun h => nomatch h⟩
  | cut hmem =>
      refine ⟨fun hw => ?_, fun h => nomatch h⟩
      obtain ⟨hok, hin⟩ := hstored hw
      exact ⟨hok, AList.mem_erase.mpr ⟨he.1, hin⟩⟩
  | gone hout => exact ⟨hstored, fun h => nomatch h⟩
  | idle hdone => exact ⟨hstored, hsole⟩

/-- **The invariant of the race.** Every move of either party keeps what the
    phases of the two say about the table. -/
theorem inv_move {i : Role} {r r' : Race} (he : Beneath c e) (h : Inv c e ok r)
    (hmove : Move c e ok i r r') : Inv c e ok r' := by
  cases hmove with
  | writer hw => exact inv_writer h hw
  | delete hd => exact inv_delete he h hd

/-- **Safe until overtaken**: every move but an overtaking cut keeps the race
    safe. -/
theorem safe_move {i : Role} {r r' : Race} (he : Beneath c e) (hinv : Inv c e ok r)
    (hsafe : Safe c r) (hcalm : ¬ (i = .delete ∧ Overtakes c e r))
    (hmove : Move c e ok i r r') : Safe c r' := by
  cases hmove with
  | @writer r p t hw =>
      obtain ⟨w, d, s⟩ := r
      intro hd
      have hold : HasParent s c ∨ (¬ HasChild s c ∧ w ≠ .writing) := hsafe hd
      cases hw with
      | found hv =>
          -- an empty container that is not there cannot be found
          rcases hold with hp | ⟨hleaf, -⟩
          · exact Or.inl hp
          · exact Or.inl (hv.resolve_left hleaf)
      | missing => exact hold.imp id (fun h => ⟨h.1, nofun⟩)
      | denied => exact hold.imp id (fun h => ⟨h.1, nofun⟩)
      | make => exact Or.inl (hasParent_insert.mpr (Or.inl (Or.inl rfl)))
      | beaten => exact hold.imp id (fun h => ⟨h.1, nofun⟩)
      | write hok hfree =>
          rcases hold with hp | ⟨-, hnot⟩
          · exact Or.inl ((hasParent_insert_beneath he).mpr hp)
          · exact absurd rfl hnot
      | fail hfull => exact hold.imp id (fun h => ⟨h.1, nofun⟩)
      | idle hdone => exact hold
  | @delete r p t hd =>
      obtain ⟨w, d, s⟩ := r
      intro hremoved
      have hmoved : p = .removed := hremoved
      cases hd with
      | empty hleaf => exact nomatch hmoved
      | denied => exact nomatch hmoved
      | gone hout => exact nomatch hmoved
      | idle hdone => exact hsafe hremoved
      | cut hmem =>
          by_cases hlast : HasParent (s.erase c) c
          · exact Or.inl hlast
          · -- not overtaken: the writer has neither written nor passed its check
            have hnot : ¬ (e ∈ s ∨ w = .writing) :=
              fun hpassed => hcalm ⟨rfl, rfl, hmem, hlast, hpassed⟩
            refine Or.inr ⟨fun hc => ?_, fun hw => hnot (Or.inr hw)⟩
            have hwritten : w = .written := hinv.sole rfl (hasChild_erase_self.mp hc)
            exact hnot (Or.inl (hinv.stored hwritten).2)

/-- An overtaking cut loses the container. -/
theorem lost_of_overtakes {r r' : Race} (he : Beneath c e) (hinv : Inv c e ok r)
    (hover : Overtakes c e r) (hmove : Move c e ok .delete r r') : Lost c e r' := by
  cases hmove with
  | @delete r p t hd =>
      obtain ⟨w, d, s⟩ := r
      obtain ⟨rfl, hmem, hlast, hpassed⟩ := hover
      have hwritten : e ∈ s → w = .written :=
        fun hin => hinv.sole rfl (hasChild_of_mem hin he)
      cases hd with
      | gone hout => exact absurd hmem hout
      | idle hdone => rcases hdone with h | h <;> exact nomatch h
      | cut _ =>
          refine ⟨rfl, hlast, ?_⟩
          by_cases hin : e ∈ s
          · exact Or.inr ⟨hwritten hin, AList.mem_erase.mpr ⟨he.1, hin⟩⟩
          · have hout : e ∉ s.erase c := fun h => hin (AList.mem_erase.mp h).2
            exact Or.inl ⟨hpassed.resolve_left hin, hout⟩

/-- **What is lost stays lost**: nothing can stop the writer, once it has seen
    the container, and nothing brings the container back. -/
theorem lost_move {i : Role} {r r' : Race} (he : Beneath c e) (hok : ok) (h : Lost c e r)
    (hmove : Move c e ok i r r') : Lost c e r' := by
  cases hmove with
  | @writer r p t hw =>
      obtain ⟨w, d, s⟩ := r
      obtain ⟨hd, hgone, hentry⟩ := h
      cases hw with
      | write _ hfree =>
          refine ⟨hd, fun hp => hgone ((hasParent_insert_beneath he).mp hp), Or.inr ⟨rfl, ?_⟩⟩
          exact (AList.mem_insert _).mpr (Or.inl rfl)
      | fail hfull =>
          rcases hentry with ⟨-, hfree⟩ | ⟨hw, -⟩
          · exact absurd (hfull hok) hfree
          · exact nomatch hw
      | idle hdone => exact ⟨hd, hgone, hentry⟩
      | found hv => rcases hentry with ⟨hw, -⟩ | ⟨hw, -⟩ <;> exact nomatch hw
      | missing => rcases hentry with ⟨hw, -⟩ | ⟨hw, -⟩ <;> exact nomatch hw
      | denied => rcases hentry with ⟨hw, -⟩ | ⟨hw, -⟩ <;> exact nomatch hw
      | make => rcases hentry with ⟨hw, -⟩ | ⟨hw, -⟩ <;> exact nomatch hw
      | beaten => rcases hentry with ⟨hw, -⟩ | ⟨hw, -⟩ <;> exact nomatch hw
  | @delete r p t hd =>
      obtain ⟨w, d, s⟩ := r
      obtain ⟨rfl, hgone, hentry⟩ := h
      cases hd with
      | idle _ => exact ⟨rfl, hgone, hentry⟩

end ContainerRace
