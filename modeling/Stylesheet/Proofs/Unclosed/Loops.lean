import Stylesheet.Proofs.Pairing.Loops
import Stylesheet.Proofs.Unclosed

/-!
# Loops without their last braces

A block ends at its brace and at the end of the text alike. So the loops of all blocks that a text
leaves open make the same steps, and each of these blocks then looks for its brace in vain.

Results:
* `Unclosed.steady_many`: a loop makes as many steps in both texts.
* `Unclosed.steady_block`, `Unclosed.steady_separated`.
-/
namespace Stylesheet.Unclosed

open Production

variable {α : Type} {R : Left α} {stop e : Nat} {c c' : Cursor}

/-! ## The loop -/

section Many

variable {step : Production (Option α)}

theorem steady_many (hs : Steady stop (LeftOption R) step) :
    Steady stop (LeftList R) (many step) := by
  intro c c' e hm hg hf
  -- Along the loop in the longer text. Where it goes on, the shorter one's does: its step gets on,
  -- since it makes no mistake.
  fun_induction many step c generalizing c' e with
  | case1 c first hn =>
    have hn : (step c).value = none := hn
    have hsame := hs c c' e hm ⟨hg.clean, hg.faultless⟩ (faults_many_nil hf).1
    have hvalue := hsame.value
    rw [hn] at hvalue
    obtain ⟨hn', htally⟩ := hvalue.of_none
    rw [many_of_none hn']
    refine ⟨?_, hsame.rest, hsame.errors, hsame.warnings⟩
    rw [← htally]
    exact .nil
  | case2 c first a ha hlt tail ih =>
    have ha : (step c).value = some a := ha
    obtain ⟨hgood, htailGood⟩ := Outcome.good_append.mp hg
    obtain ⟨hfault, hmore⟩ := faults_many_nil hf
    have hsame := hs c c' e hm hgood hfault
    have hvalue := hsame.value
    rw [ha] at hvalue
    obtain ⟨a', ha', hleft⟩ := hvalue.of_some
    obtain ⟨hlt', htailFault⟩ := hmore a' ha'
    have htail := ih (step c').rest (e + (Diagnostic.errors (step c').reports).length) hsame.rest
      htailGood htailFault
    rw [many_of_some ha' hlt']
    refine ⟨?_, htail.rest, fun d hd => ?_, ?_⟩
    · have hrest := htail.value
      rw [Nat.add_assoc, ← List.length_append, ← Diagnostic.errors_append] at hrest
      exact .cons hleft hrest
    · rw [Diagnostic.errors_append] at hd
      exact (List.mem_append.mp hd).elim (hsame.errors d) (htail.errors d)
    · rw [Diagnostic.warnings_append, hsame.warnings, htail.warnings]
  | case3 c first a ha hlt => exact absurd hg Pairing.not_good_idle

end Many

/-! ## Blocks -/

section Block

variable {starts : KindSet} {item : Production Draft}

theorem bad_unexpected (starts : KindSet) (c : Cursor) : ¬(unexpected starts c).Good :=
  bad_look (p := Problem.unexpected) (fun _ => rfl) c

theorem steady_blockStep (hs : starts.contains .rightBrace = starts.contains .eof)
    (hi : Steady stop LeftDraft item) :
    Steady stop (LeftOption LeftDraft) (blockStep starts item) := by
  intro c c' e
  -- The two looks see different things where the shorter text has ended, but one of them ends the
  -- loop in both texts.
  refine .look fun hm => .look fun _ => ?_
  have hends : (decide (c.kind = .rightBrace) || decide (c.kind = .eof))
      = (decide (c'.kind = .rightBrace) || decide (c'.kind = .eof)) :=
    hm.view (fun k => decide (k = .rightBrace) || decide (k = .eof)) rfl 0
  rw [← hends]
  refine .ite (fun _ => .done .none) fun _ => ?_
  refine .look_same (fun hm => hm.contains hs) (.ite (fun _ => ?_) fun _ => ?_)
  · exact (hi c c' e).map .some
  · exact .map (.of_bad (R := LeftDraft) (bad_unexpected starts c)) .some

theorem steady_block (hs : starts.contains .rightBrace = starts.contains .eof)
    (hi : Steady stop LeftDraft item) : Steady stop LeftDraft (block starts item) := by
  intro c c' e
  refine .look_same (fun hm => hm.sees (by decide) (by decide)) (.ite (fun _ => ?_) fun _ => ?_)
  · refine .bind (steady_take c c' e) fun opening opening' c₁ c₁' e₁ ho => ?_
    refine .bind (steady_many (steady_blockStep hs hi) c₁ c₁' e₁)
      fun items items' c₂ c₂' e₂ hitems => ?_
    refine .first (.bind (steady_expect .rightBrace c₂ c₂' e₂) fun closing closing' c₃ c₃' e₃ hc => ?_)
    exact .done (.composite (.cons (.some ho) (.cons (LeftDraft.list hitems) (.single (.some hc)))))
  · exact .of_bad (Pairing.not_good_bind (bad_absent .leftBrace c))

end Block

/-! ## Separated lists -/

section Separated

variable {listed : Listed} {starts : Cursor → Bool} {item : Production Draft}

theorem steady_separatedStep (hv : ∀ {c c'}, Meets stop c c' → starts c = starts c')
    (hi : Steady stop LeftDraft item) :
    Steady stop (LeftOption (LeftList LeftDraft)) (separatedStep listed starts item) := by
  intro c c' e
  refine .look_same hv (.ite (fun _ => ?_) fun _ => .done .none)
  refine .bind (hi c c' e) fun first first' c₁ c₁' e₁ hfirst => ?_
  refine .look_same (fun hm => hm.sees (by decide) (by decide)) (.ite (fun _ => ?_) fun _ => ?_)
  · refine .bind (steady_take c₁ c₁' e₁) fun comma comma' c₂ c₂' e₂ hcomma => ?_
    refine .look_same hv ?_
    cases starts c₂ with
    | false =>
      exact .of_bad (Pairing.not_good_bind (p := report (.nothingAfterComma listed))
        (bad_report rfl c₂))
    | true => exact .done (.some (.cons hfirst (.single hcomma)))
  · refine .look_same hv (.ite (fun _ => ?_) fun _ => .done (.some (.single hfirst)))
    exact .of_bad (Pairing.not_good_bind (bad_absent .comma c₁))

theorem steady_separated (hv : ∀ {c c'}, Meets stop c c' → starts c = starts c')
    (hi : Steady stop LeftDraft item) :
    Steady stop (LeftList LeftDraft) (separated listed starts item) := by
  intro c c' e
  refine .bind (steady_many (steady_separatedStep hv hi) c c' e)
    fun groups groups' c₁ c₁' e₁ hg => ?_
  exact .done hg.flatten

end Separated

end Stylesheet.Unclosed
