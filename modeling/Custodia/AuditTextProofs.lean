import Custodia.QuotedText
import Custodia.RequestShapes

/-! # AuditTextProofs — what an audit line says

    A line of the audit log names the verdict, the client and the key of one
    access. Client and key are put between quotes as they are.

    * `KeyAccess`: an access that the consumer audits;
    * `unambiguous_iff`: a line tells which access it is about, and is one
      line, exactly when client and key hold no quoted verb and no line break. -/

namespace AuditTextProofs

open Interaction QuotedText PosixPath PyValues SqliteStore SecretsConsumer SecretsRequests
open RequestShapes

/-! ## Accesses -/

/-- An access to a key, by one of the six actions. -/
@[ext] structure KeyAccess where
  action : Nat
  client : Str
  key : Str
  isKeyAction : action ∈ keyActions

/-- The line that `AuditLog.key_access` writes of it. -/
def KeyAccess.text (x : KeyAccess) : Str := (keyAccess x.action x.client x.key).text

/-- The records of a request are lines of accesses, by its client, to the key
    that its trail names. -/
theorem handled_accesses {con : Secrets} {req : Request} {σ : Type}
    {exec : (c : Call) → σ → Except Exc c.Ans × σ} {s : σ} {o : Outcome}
    (h : ((handle con req).run exec s).1 = .ok o) : ∀ r ∈ o.audit, ∃ x : KeyAccess,
      clientName req = .ok x.client ∧ x.key = joinSlash (segments req) ∧ r.text = x.text := by
  have hshape := request_shape con req
  generalize reading con req = read at hshape
  intro r hr
  cases hshape with
  | refused e silent hrun =>
      rw [hrun] at h
      obtain rfl := Except.ok.inj h
      exact absurd hr List.not_mem_nil
  | unaudited fn read operation hrun =>
      rw [hrun, Prog.run_conclude] at h
      obtain rfl := Except.ok.inj h
      exact absurd hr List.not_mem_nil
  | audited ok fail client fn read operation allowed denied hname hrun =>
      rw [hrun, Prog.run_conclude] at h
      obtain rfl := Except.ok.inj h
      obtain rfl := List.mem_singleton.mp hr
      cases (fn.run exec s).1 with
      | ok response => exact ⟨⟨ok, client, _, allowed⟩, hname, rfl, rfl⟩
      | error e => exact ⟨⟨fail, client, _, denied⟩, hname, rfl, rfl⟩

/-! ## The parts of a line -/

/-- The verdict, up to the quote before the client. -/
def opening (action : Nat) : Str :=
  if action % 2 = 1 then "ALLOWED: '" else "DENIED: '"

/-- What is said between the two quoted texts. -/
def verb (action : Nat) : Str :=
  if action ≤ 2 then " requested key " else if action ≤ 4 then " stored key "
  else " deleted key "

/-- The three verbs. -/
def verbs : List Str := [" requested key ", " stored key ", " deleted key "]

/-- The verb of every action is one of the list. -/
theorem verb_mem (action : Nat) : verb action ∈ verbs := by
  rw [verb]
  split_ifs
  · exact List.mem_cons_self
  · exact List.mem_cons_of_mem _ List.mem_cons_self
  · exact List.mem_cons_of_mem _ (List.mem_cons_of_mem _ List.mem_cons_self)

/-- There is no quote in a verb. -/
theorem quote_not_mem_verbs : ∀ word ∈ verbs, '\'' ∉ word := by decide

/-- The text of a record is its opening, then the client, the verb and the key
    between quotes. -/
theorem text_eq (x : KeyAccess) :
    x.text = opening x.action ++ line '\'' x.client (verb x.action) x.key ++ ['\''] := by
  obtain ⟨action, client, key, hact⟩ := x
  simp only [keyActions, List.mem_cons, List.not_mem_nil, or_false] at hact
  rcases hact with rfl | rfl | rfl | rfl | rfl | rfl <;>
    simp [KeyAccess.text, keyAccess, AuditRecord.text, opening, verb, line, mark, auditGetAllowed,
      auditGetDenied, auditSetAllowed, auditSetDenied, auditDelAllowed, auditDelDenied]

/-- The first letter of a line tells the verdict. -/
theorem opening_append_inj {a b : Nat} {s t : Str} (h : opening a ++ s = opening b ++ t) :
    opening a = opening b ∧ s = t := by
  have hsame : opening a = opening b := by
    simp only [opening] at h ⊢
    split_ifs at h ⊢
    · rfl
    · exact absurd (List.cons.inj h).1 (by decide)
    · exact absurd (List.cons.inj h).1 (by decide)
    · rfl
  rw [hsame] at h
  exact ⟨hsame, List.append_cancel_left h⟩

/-- Verdict and verb tell the action. -/
theorem action_eq_of_parts : ∀ a ∈ keyActions, ∀ b ∈ keyActions,
    opening a = opening b → verb a = verb b → a = b := by decide

/-- Every verdict can be given with every verb. -/
theorem exists_action : ∀ a ∈ keyActions, ∀ word ∈ verbs,
    ∃ b ∈ keyActions, opening b = opening a ∧ verb b = word := by decide

/-- Two lines are the same exactly if they give the same verdict on two
    readings of the same quoted texts. -/
theorem text_eq_text_iff (x y : KeyAccess) : y.text = x.text ↔
    opening y.action = opening x.action
      ∧ line '\'' y.client (verb y.action) y.key = line '\'' x.client (verb x.action) x.key := by
  rw [text_eq, text_eq, List.append_assoc, List.append_assoc]
  constructor
  · intro h
    obtain ⟨hopening, hline⟩ := opening_append_inj h
    exact ⟨hopening, List.append_cancel_right hline⟩
  · rintro ⟨hopening, hline⟩
    rw [hopening, hline]

/-- An access is the only one with its line exactly if its two texts have one
    reading. -/
theorem only_access_iff (x : KeyAccess) : (∀ y : KeyAccess, y.text = x.text → y = x)
    ↔ Unique '\'' verbs x.client (verb x.action) x.key := by
  constructor
  · intro honly client word key hword hline
    obtain ⟨action, haction, hopening, rfl⟩ := exists_action x.action x.isKeyAction word hword
    have hy := honly ⟨action, client, key, haction⟩ ((text_eq_text_iff x _).mpr ⟨hopening, hline⟩)
    rw [← hy]
    exact ⟨rfl, rfl, rfl⟩
  · intro hunique y hy
    obtain ⟨hopening, hline⟩ := (text_eq_text_iff x y).mp hy
    obtain ⟨hclient, hverb, hkey⟩ := hunique y.client (verb y.action) y.key (verb_mem _) hline
    ext1
    · exact action_eq_of_parts y.action y.isKeyAction x.action x.isKeyAction hopening hverb
    · exact hclient
    · exact hkey

/-! ## Line breaks -/

/-- The opening of a record is one line. -/
theorem oneLine_opening (action : Nat) : OneLine (opening action) := by
  rw [opening]
  split_ifs <;> decide

/-- The verb of a record is one line. -/
theorem oneLine_verb (action : Nat) : OneLine (verb action) := by
  rw [verb]
  split_ifs <;> decide

/-- **The text of a record is one line** exactly if the client and the key are. -/
theorem oneLine_text_iff (x : KeyAccess) : OneLine x.text ↔ OneLine x.client ∧ OneLine x.key := by
  rw [text_eq]
  simp [line, mark, oneLine_opening, oneLine_verb]

/-! ## The lines -/

/-- A line that can be read back: neither text holds a quoted verb, with the
    quote that belongs to it, and neither holds a line break. -/
structure Readable (client key : Str) : Prop where
  unmarked : Unmarked '\'' verbs client key
  client : OneLine client
  key : OneLine key

/-- **HEADLINE — which audit lines are unambiguous.** -/
theorem unambiguous_iff (x : KeyAccess) :
    ((∀ y : KeyAccess, y.text = x.text → y = x) ∧ OneLine x.text) ↔ Readable x.client x.key := by
  rw [only_access_iff, reading_unique_iff quote_not_mem_verbs (verb_mem _), oneLine_text_iff]
  constructor
  · rintro ⟨hunmarked, hclient, hkey⟩
    exact ⟨hunmarked, hclient, hkey⟩
  · rintro ⟨hunmarked, hclient, hkey⟩
    exact ⟨hunmarked, hclient, hkey⟩

/-- A client reads a key with quotes in its name, -/
def keyWithQuotes : KeyAccess := ⟨auditGetAllowed, "a", "b' requested key 'c", by decide⟩

/-- a client with quotes in its name reads a key, -/
def clientWithQuotes : KeyAccess := ⟨auditGetAllowed, "a' requested key 'b", "c", by decide⟩

/-- and a client may not write a key with a line feed in its name. -/
def keyWithBreak : KeyAccess := ⟨auditSetDenied, "a", ("b" : Str) ++ ['\n'] ++ "c", by decide⟩

/-- Two different accesses give the same line, and a third one gives two
    lines. -/
theorem not_unambiguous_quoted : clientWithQuotes.text = keyWithQuotes.text
    ∧ clientWithQuotes ≠ keyWithQuotes ∧ ¬ OneLine keyWithBreak.text := by
  refine ⟨by decide, ?_, by decide⟩
  intro h
  exact absurd (congrArg KeyAccess.client h) (by decide)

end AuditTextProofs
