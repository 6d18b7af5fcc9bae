import Brainfuck.Proofs.Numerals
import Brainfuck.Proofs.Substitution
import Brainfuck.Template

/-!
# Placeholders of a template

The placeholders are replaced one kind after the other, each pass over the result of the pass before. What
a pass puts in could complete a placeholder of a later pass, and two placeholders may have a percent sign in
common, which the first pass to come takes from the other.

* `Placeholder` : the four placeholders, with their marks and values;
* `Placeholder.across_mark`, `Placeholder.across_mark_append` : a mark overlaps another in one percent sign;
* `Foreign` : texts that have no character in common with a mark, such as the names and sizes put in;
* `Template.Layout` : a template cut at its placeholders, `Template.fill_layout` : what it is filled to;
* `Template.named` : a template before the last pass, `Template.Standing` : a place for the program which no
  other placeholder overlaps, `Template.fill_keeps_program` : when the program is in the filled text.
-/

namespace Brainfuck

open Text

/-- The placeholders of a template. -/
inductive Placeholder where
  | stackSizeRegister
  | stackSize
  | pointerRegister
  | source
  deriving DecidableEq

namespace Placeholder

variable {p q : Placeholder}

def name : Placeholder → List Char
  | stackSizeRegister => "STACK_SIZE_REGISTER".toList
  | stackSize => "STACK_SIZE".toList
  | pointerRegister => "POINTER_REGISTER".toList
  | source => "SOURCE".toList

def mark (p : Placeholder) : List Char := '%' :: (p.name ++ ['%'])

/-- What stands in place of the mark in a filled template. -/
def value (convention : Convention) (lines : List (List Char)) : Placeholder → List Char
  | stackSizeRegister => convention.stackSizeRegister
  | stackSize => convention.stackSizeLiteral
  | pointerRegister => convention.pointerRegister
  | source => joinLines lines

theorem percent_not_mem_name (p : Placeholder) : '%' ∉ p.name := by
  cases p <;> decide

theorem mark_ne_nil (p : Placeholder) : p.mark ≠ [] := List.cons_ne_nil _ _

theorem not_infix_mark (h : p ≠ q) : ¬q.mark <:+: p.mark := by
  rw [← occursIn_iff]
  cases p <;> cases q <;> first | exact absurd rfl h | decide

/-! ## Overlaps of marks -/

theorem mark_eq_append {front back : List Char} (hfront : front ≠ []) (hback : back ≠ [])
    (h : p.mark = front ++ back) :
    ∃ x y, front = '%' :: x ∧ back = y ++ ['%'] ∧ p.name = x ++ y := by
  obtain ⟨c, x, rfl⟩ := List.exists_cons_of_ne_nil hfront
  obtain ⟨y, d, rfl⟩ := (List.eq_nil_or_concat' back).resolve_left hback
  rw [mark, List.cons_append, ← List.append_assoc] at h
  obtain ⟨rfl, hrest⟩ := List.cons.inj h
  obtain ⟨hname, hlast⟩ := List.append_inj' hrest rfl
  obtain rfl : '%' = d := (List.cons.inj hlast).1
  exact ⟨x, y, rfl, rfl, hname⟩

/-- A mark that begins inside another one begins with its last percent sign. -/
theorem across_mark {t : List Char} (h : Across q.mark p.mark t) : q.name ++ ['%'] <+: t := by
  obtain ⟨front, back, hfront, hback, hmark, hs, ht⟩ := h
  obtain ⟨x, y, rfl, rfl, hname⟩ := mark_eq_append hfront hback hmark
  have hx : '%' ∉ x := fun hmem => q.percent_not_mem_name (hname ▸ List.mem_append_left y hmem)
  rw [mark, ← List.cons_append] at hs
  rcases List.suffix_concat_iff.1 hs with hnil | ⟨w, hw, -⟩
  · contradiction
  · cases w with
    | nil =>
      obtain rfl : x = [] := (List.cons.inj hw).2
      rw [hname]
      exact ht
    | cons c w =>
      have hmem : '%' ∈ x := by
        rw [(List.cons.inj hw).2]
        exact List.mem_append_right w List.mem_cons_self
      exact absurd hmem hx

/-- A mark that ends inside another one ends with its first percent sign. -/
theorem across_mark_append {s t : List Char} (h : Across q.mark s (p.mark ++ t)) :
    '%' :: q.name <:+ s := by
  obtain ⟨front, back, hfront, hback, hmark, hs, ht⟩ := h
  obtain ⟨x, y, rfl, rfl, hname⟩ := mark_eq_append hfront hback hmark
  have hy : '%' ∉ y := fun hmem => q.percent_not_mem_name (hname ▸ List.mem_append_right x hmem)
  cases y with
  | nil =>
    rw [hname, List.append_nil]
    exact hs
  | cons d y =>
    have hd : d = '%' := (List.cons_prefix_cons.1 ht).1
    exact absurd (by simp [hd]) hy

theorem substitute_mark_append {t : List Char} (h : p ≠ q) (ht : ¬q.name ++ ['%'] <+: t)
    (v : List Char) : substitute q.mark v (p.mark ++ t) = p.mark ++ substitute q.mark v t := by
  rw [substitute_append fun hacross => ht (across_mark hacross), substitute_of_absent (not_infix_mark h)]

theorem substitute_plain_append {s : List Char} (h : '%' ∉ s) (q : Placeholder) (v t : List Char) :
    substitute q.mark v (s ++ t) = s ++ substitute q.mark v t := by
  have hacross : ¬Across q.mark s t := fun hacross => h hacross.head_mem
  have hself : substitute q.mark v s = s := substitute_of_not_mem h _ v
  rw [substitute_append hacross, hself]

end Placeholder

/-! ## What is put in -/

/-- A text that has no character in common with a mark. -/
def Foreign (v : List Char) : Prop := v ≠ [] ∧ ∀ p : Placeholder, ∀ c ∈ v, c ∉ p.mark

theorem Foreign.percent_not_mem {v : List Char} (h : Foreign v) : '%' ∉ v := fun hmem =>
  h.2 .source _ hmem List.mem_cons_self

/-- The default names and every size, a negative one too, are foreign to the marks. -/
theorem foreign_value (size : Int) (lines : List (List Char)) {p : Placeholder} (h : p ≠ .source) :
    Foreign (p.value { stackSize := size } lines) := by
  have hrcx : Foreign "rcx".toList := by
    refine ⟨by decide, fun p => ?_⟩
    cases p <;> exact forall_mem_of_all (by decide)
  have hrbx : Foreign "rbx".toList := by
    refine ⟨by decide, fun p => ?_⟩
    cases p <;> exact forall_mem_of_all (by decide)
  have hhex (n : Nat) : Foreign (hex n) := by
    refine ⟨List.cons_ne_nil _ _, fun p => ?_⟩
    cases p <;> exact forall_mem_hex (by decide) n
  cases p with
  | stackSizeRegister => exact hrcx
  | pointerRegister => exact hrbx
  | source => exact absurd rfl h
  | stackSize =>
    cases size with
    | ofNat n => exact hhex n
    | negSucc n =>
      refine ⟨List.cons_ne_nil _ _, fun p => ?_⟩
      have hminus : '-' ∉ p.mark := by cases p <;> decide
      exact List.forall_mem_cons.2 ⟨hminus, (hhex (n + 1)).2 p⟩

/-! ## Templates cut at their placeholders -/

namespace Template

/-- A template cut at its placeholders: the text in front of the first, and each with the text behind it.
The texts have no percent signs, and one between two placeholders is not a name: with the percent signs on
its sides it would be a placeholder too. -/
structure Layout where
  head : List Char
  pieces : List (Placeholder × List Char)
  plain_head : '%' ∉ head
  plain : ∀ piece ∈ pieces, '%' ∉ piece.2
  nameless : ∀ piece ∈ pieces.dropLast, ∀ p : Placeholder, piece.2 ≠ p.name

/-- The pieces with given texts for their placeholders. -/
def spell (shown : Placeholder → List Char) (pieces : List (Placeholder × List Char)) : List Char :=
  pieces.flatMap fun piece => shown piece.1 ++ piece.2

theorem spell_cons (shown : Placeholder → List Char) (p : Placeholder) (s : List Char)
    (pieces : List (Placeholder × List Char)) :
    spell shown ((p, s) :: pieces) = shown p ++ (s ++ spell shown pieces) := by
  rw [spell, List.flatMap_cons, List.append_assoc]
  rfl

theorem spell_append (shown : Placeholder → List Char) (xs ys : List (Placeholder × List Char)) :
    spell shown (xs ++ ys) = spell shown xs ++ spell shown ys :=
  List.flatMap_append

def Layout.text (layout : Layout) (shown : Placeholder → List Char) : List Char :=
  layout.head ++ spell shown layout.pieces

/-- While a template is being filled, a placeholder is shown as its mark or as a foreign text. -/
def Partial (shown : Placeholder → List Char) : Prop :=
  ∀ p, shown p = p.mark ∨ Foreign (shown p)

variable {shown : Placeholder → List Char} {p q : Placeholder} {v : List Char}

theorem Partial.update (h : Partial shown) (q : Placeholder) (hv : Foreign v) :
    Partial (Function.update shown q v) := by
  intro p
  by_cases hp : p = q
  · subst hp
    rw [Function.update_self]
    exact .inr hv
  · rw [Function.update_of_ne hp]
    exact h p

theorem exists_name_eq_append {s t : List Char} {c : Char} (hs : '%' ∉ s)
    (h : q.name ++ ['%'] <+: s ++ c :: t) : ∃ w, q.name ++ ['%'] = s ++ c :: w := by
  rcases List.prefix_or_prefix_of_prefix h (List.prefix_append s _) with hle | ⟨w, hw⟩
  · exact absurd (hle.mem (by simp)) hs
  · cases w with
    | nil =>
      rw [List.append_nil] at hw
      exact absurd (hw ▸ List.mem_append_right _ List.mem_cons_self) hs
    | cons d w =>
      rw [← hw, List.prefix_append_right_inj, List.cons_prefix_cons] at h
      exact ⟨w, by rw [← hw, h.1]⟩

theorem not_prefix_spell {s : List Char} {pieces : List (Placeholder × List Char)} (hshown : Partial shown)
    (hs : '%' ∉ s) (hname : pieces = [] ∨ s ≠ q.name) :
    ¬q.name ++ ['%'] <+: s ++ spell shown pieces := by
  intro h
  cases pieces with
  | nil =>
    rw [spell, List.flatMap_nil, List.append_nil] at h
    exact hs (h.mem (by simp))
  | cons piece pieces =>
    obtain ⟨p, t⟩ := piece
    rw [spell_cons] at h
    rcases hshown p with hmark | hforeign
    · rw [hmark, Placeholder.mark, List.cons_append] at h
      obtain ⟨w, hw⟩ := exists_name_eq_append hs h
      have hcut := (List.append_cons_inj_of_notMem q.percent_not_mem_name List.not_mem_nil).1 hw
      exact hname.resolve_left (List.cons_ne_nil _ _) hcut.1.symm
    · obtain ⟨c, v, hv⟩ := List.exists_cons_of_ne_nil hforeign.1
      rw [hv, List.cons_append] at h
      obtain ⟨w, hw⟩ := exists_name_eq_append hs h
      have hc : c ∈ q.name ++ ['%'] := by
        rw [hw]
        exact List.mem_append_right s List.mem_cons_self
      exact hforeign.2 q c (hv ▸ List.mem_cons_self) (List.mem_cons_of_mem _ hc)

/-- One pass replaces the marks of one placeholder and leaves all else. -/
theorem substitute_spell {pieces : List (Placeholder × List Char)} (hshown : Partial shown)
    (hq : shown q = q.mark) (hplain : ∀ piece ∈ pieces, '%' ∉ piece.2)
    (hnameless : ∀ piece ∈ pieces.dropLast, ∀ p : Placeholder, piece.2 ≠ p.name) :
    substitute q.mark v (spell shown pieces) = spell (Function.update shown q v) pieces := by
  induction pieces with
  | nil => rfl
  | cons piece pieces ih =>
    obtain ⟨p, s⟩ := piece
    have hs : '%' ∉ s := hplain _ List.mem_cons_self
    have hname : pieces = [] ∨ s ≠ q.name := by
      by_cases hnil : pieces = []
      · exact .inl hnil
      · rw [List.dropLast_cons_of_ne_nil hnil] at hnameless
        exact .inr (hnameless _ List.mem_cons_self q)
    have htail : ∀ piece ∈ pieces.dropLast, ∀ p : Placeholder, piece.2 ≠ p.name := by
      intro piece hpiece
      have hnil : pieces ≠ [] := fun hnil => by simp [hnil] at hpiece
      rw [List.dropLast_cons_of_ne_nil hnil] at hnameless
      exact hnameless piece (List.mem_cons_of_mem _ hpiece)
    have hbehind : substitute q.mark v (s ++ spell shown pieces) =
        s ++ spell (Function.update shown q v) pieces := by
      rw [Placeholder.substitute_plain_append hs,
        ih (fun piece hpiece => hplain piece (List.mem_cons_of_mem _ hpiece)) htail]
    rw [spell_cons, spell_cons]
    by_cases hpq : p = q
    · subst hpq
      rw [hq, substitute_self_append p.mark_ne_nil, hbehind, Function.update_self]
    · rw [Function.update_of_ne hpq]
      rcases hshown p with hmark | hforeign
      · rw [hmark, Placeholder.substitute_mark_append hpq (not_prefix_spell hshown hs hname), hbehind]
      · rw [Placeholder.substitute_plain_append hforeign.percent_not_mem, hbehind]

theorem Layout.substitute_text (layout : Layout) (hshown : Partial shown) (hq : shown q = q.mark) :
    substitute q.mark v (layout.text shown) = layout.text (Function.update shown q v) := by
  rw [text, Placeholder.substitute_plain_append layout.plain_head,
    substitute_spell hshown hq layout.plain layout.nameless, text]

theorem Layout.mark_infix_text (layout : Layout) {s : List Char} (h : (p, s) ∈ layout.pieces) :
    p.mark <:+: layout.text Placeholder.mark := by
  obtain ⟨before, after, hpieces⟩ := List.append_of_mem h
  refine ⟨layout.head ++ spell Placeholder.mark before, s ++ spell Placeholder.mark after, ?_⟩
  rw [text, hpieces, spell_append, spell_cons]
  simp only [List.append_assoc]

/-! ## Filling -/

/-- A template with the names and the size put in, before the program. -/
def named (convention : Convention) (template : List Char) : List Char :=
  template
    |> substitute Placeholder.stackSizeRegister.mark convention.stackSizeRegister
    |> substitute Placeholder.stackSize.mark convention.stackSizeLiteral
    |> substitute Placeholder.pointerRegister.mark convention.pointerRegister

theorem named_eq (convention : Convention) (lines : List (List Char)) (template : List Char) :
    named convention template =
      substitute Placeholder.pointerRegister.mark (Placeholder.pointerRegister.value convention lines)
        (substitute Placeholder.stackSize.mark (Placeholder.stackSize.value convention lines)
          (substitute Placeholder.stackSizeRegister.mark
            (Placeholder.stackSizeRegister.value convention lines) template)) :=
  rfl

theorem fill_of_occurs {template : List Char} (h : Placeholder.source.mark <:+: template)
    (lines : List (List Char)) (convention : Convention) :
    fill template lines convention =
      .ok (substitute Placeholder.source.mark (joinLines lines) (named convention template)) :=
  if_pos (occursIn_iff.2 h)

theorem fill_of_absent {template : List Char} (h : ¬Placeholder.source.mark <:+: template)
    (lines : List (List Char)) (convention : Convention) :
    fill template lines convention = .error .noSourceMark :=
  if_neg fun hoccurs => h (occursIn_iff.1 hoccurs)

/-- The four passes fill a template as if all placeholders were replaced at once. The lines of the program
may be any texts, with percent signs and placeholders in them too. -/
theorem fill_layout (layout : Layout) (h : ∃ piece ∈ layout.pieces, piece.1 = .source)
    (lines : List (List Char)) (size : Int) :
    fill (layout.text Placeholder.mark) lines { stackSize := size } =
      .ok (layout.text (Placeholder.value { stackSize := size } lines)) := by
  obtain ⟨⟨p, s⟩, hmem, rfl⟩ := h
  have hforeign := fun p => foreign_value size lines (p := p)
  have hmark : Partial Placeholder.mark := fun p => .inl rfl
  have hregister := hmark.update .stackSizeRegister (hforeign .stackSizeRegister (by decide))
  have hsize := hregister.update .stackSize (hforeign .stackSize (by decide))
  have hpointer := hsize.update .pointerRegister (hforeign .pointerRegister (by decide))
  rw [fill_of_occurs (layout.mark_infix_text hmem), named_eq _ lines,
    layout.substitute_text hmark (q := .stackSizeRegister) rfl,
    layout.substitute_text hregister (q := .stackSize) rfl,
    layout.substitute_text hsize (q := .pointerRegister) rfl,
    layout.substitute_text hpointer (q := .source) rfl]
  refine congrArg (fun shown => Except.ok (layout.text shown)) (funext fun p => ?_)
  cases p <;> rfl

/-- Lines that look like placeholders are copied, and so are names without their percent signs. -/
theorem fill_layout_marks :
    fill "%STACK_SIZE%SIZE%SOURCE%\n%POINTER_REGISTER%SOURCE".toList
        ["%STACK_SIZE%".toList, "%SOURCE%".toList] { stackSize := -255 } =
      .ok "-0xffSIZE%STACK_SIZE%\n%SOURCE%\nrbxSOURCE".toList := by
  let layout : Layout :=
    { head := []
      pieces := [(.stackSize, "SIZE".toList), (.source, "\n".toList), (.pointerRegister, "SOURCE".toList)]
      plain_head := List.not_mem_nil
      plain := by decide
      nameless := by
        intro piece hpiece p
        cases p <;> revert piece hpiece <;> decide }
  have htext : layout.text Placeholder.mark =
      "%STACK_SIZE%SIZE%SOURCE%\n%POINTER_REGISTER%SOURCE".toList := by decide
  have hvalue : layout.text (Placeholder.value { stackSize := -255 }
      ["%STACK_SIZE%".toList, "%SOURCE%".toList]) =
        "-0xffSIZE%STACK_SIZE%\n%SOURCE%\nrbxSOURCE".toList := by decide
  rw [← htext, ← hvalue]
  exact fill_layout layout ⟨_, List.mem_cons_of_mem _ List.mem_cons_self, rfl⟩ _ _

/-! ## Keeping the program -/

/-- A place for the program with which no other placeholder has a percent sign in common. -/
def Standing (template : List Char) : Prop :=
  ∃ before after, template = before ++ (Placeholder.source.mark ++ after) ∧
    ∀ p : Placeholder, p ≠ .source → ¬('%' :: p.name) <:+ before ∧ ¬p.name ++ ['%'] <+: after

theorem Standing.occurs {template : List Char} (h : Standing template) :
    Placeholder.source.mark <:+: template := by
  obtain ⟨before, after, rfl, -⟩ := h
  exact List.infix_append' _ _ _

theorem Standing.substitute {template : List Char} (h : Standing template) (hq : q ≠ .source)
    (hv : Foreign v) : Standing (Text.substitute q.mark v template) := by
  obtain ⟨before, after, rfl, hfree⟩ := h
  have hbefore : ¬Across q.mark before (Placeholder.source.mark ++ after) := fun hacross =>
    (hfree q hq).1 (Placeholder.across_mark_append hacross)
  refine ⟨Text.substitute q.mark v before, Text.substitute q.mark v after, ?_, fun p hp => ⟨?_, ?_⟩⟩
  · rw [substitute_append hbefore, Placeholder.substitute_mark_append hq.symm (hfree q hq).2]
  · intro hends
    have hdisjoint : v.Disjoint ('%' :: p.name) := fun c hc hname =>
      hv.2 p c hc (List.mem_append_left ['%'] hname)
    exact (hfree p hp).1 (suffix_of_suffix_substitute q.mark_ne_nil hv.1 hdisjoint hends)
  · intro hbegins
    have hdisjoint : v.Disjoint (p.name ++ ['%']) := fun c hc hname =>
      hv.2 p c hc (List.mem_cons_of_mem '%' hname)
    exact (hfree p hp).2 (prefix_of_prefix_substitute hv.1 hdisjoint hbegins)

theorem Standing.named {template : List Char} (h : Standing template) (size : Int) :
    Standing (named { stackSize := size } template) := by
  have hpass {template : List Char} (h : Standing template) (q : Placeholder) (hq : q ≠ .source) :
      Standing (Text.substitute q.mark (q.value { stackSize := size } []) template) :=
    h.substitute hq (foreign_value size [] hq)
  have hregister := hpass h .stackSizeRegister (by decide)
  have hsize := hpass hregister .stackSize (by decide)
  exact hpass hsize .pointerRegister (by decide)

/-- A template is refused exactly when it has no place for the program. A filled template has the program in
it exactly when a place for it is left once names and size are put in, but for a program which the template
spells out itself. One place that no other placeholder overlaps is always left. -/
theorem fill_keeps_program (template : List Char) (lines : List (List Char)) (size : Int) :
    (fill template lines { stackSize := size } = .error .noSourceMark ↔
      ¬Placeholder.source.mark <:+: template) ∧
    (∀ text, fill template lines { stackSize := size } = .ok text →
      (joinLines lines <:+: text ↔
        Placeholder.source.mark <:+: named { stackSize := size } template ∨
          joinLines lines <:+: named { stackSize := size } template)) ∧
    (Standing template → ∃ text, fill template lines { stackSize := size } = .ok text ∧
      joinLines lines <:+: text) := by
  have hfilled (h : Placeholder.source.mark <:+: named { stackSize := size } template) :
      joinLines lines <:+: substitute Placeholder.source.mark (joinLines lines)
        (named { stackSize := size } template) :=
    infix_substitute (Placeholder.mark_ne_nil _) h
  refine ⟨⟨fun hfill hinfix => ?_, fun hno => fill_of_absent hno lines _⟩, ?_, ?_⟩
  · rw [fill_of_occurs hinfix] at hfill
    contradiction
  · intro text hfill
    have hinfix : Placeholder.source.mark <:+: template := by
      by_contra hno
      rw [fill_of_absent hno] at hfill
      contradiction
    rw [fill_of_occurs hinfix] at hfill
    obtain rfl := Except.ok.inj hfill
    by_cases hnamed : Placeholder.source.mark <:+: named { stackSize := size } template
    · exact iff_of_true (hfilled hnamed) (.inl hnamed)
    · rw [substitute_of_absent hnamed]
      exact ⟨.inr, fun h => h.resolve_left hnamed⟩
  · intro hstanding
    exact ⟨_, fill_of_occurs hstanding.occurs lines _, hfilled (hstanding.named size).occurs⟩

/-- Placeholders side by side do not overlap. -/
theorem fill_keeps_program_beside :
    ∃ text, fill "%STACK_SIZE%%SOURCE%".toList ["\tnop".toList] {} = .ok text ∧
      joinLines ["\tnop".toList] <:+: text := by
  refine (fill_keeps_program _ _ 30000).2.2 ⟨"%STACK_SIZE%".toList, [], rfl, ?_⟩
  intro p
  cases p <;> decide

/-- The size takes the percent sign with which the place for the program begins, and the program is lost. -/
theorem fill_loses_program :
    fill "%STACK_SIZE%SOURCE%".toList ["\tnop".toList] {} = .ok "0x7530SOURCE%".toList ∧
      Template.sourceMark <:+: "%STACK_SIZE%SOURCE%".toList ∧
      ¬joinLines ["\tnop".toList] <:+: "0x7530SOURCE%".toList := by
  decide

end Template

end Brainfuck
