import Mathlib
import PageCompiler.Markup.Basic

/-!
# Printed markup is unambiguous

The text of printed markup says which markup it is. A tree has many spellings of one content: a text
can be empty, and it can be cut into adjacent ones. The normal form of a tree (`Markup.normal`) has
neither, and two trees print the same exactly if they have the same normal form
(`Markup.print_eq_print_iff`).

* `flatMap_cancel`: codes in a row can be told apart if no two codes can stand in one place.
* `mark_printAll`: the first two characters of printed trees tell of which kind the first one is.
* `printAll_cancel`: trees in normal form are read back, and what is printed behind them.
-/

namespace PageCompiler

/-- Codes in a row can be told apart, and from what stands behind them: no two codes begin in one
place, and none begins where the row ends. -/
theorem flatMap_cancel {α : Type} (code : α → List Char) (ok : α → Prop)
    (stops : List Char → Prop)
    (hcode : ∀ a b r r', ok a → ok b → code a ++ r = code b ++ r' → a = b)
    (hstops : ∀ a r, ok a → ¬ stops (code a ++ r)) {s s' : List α} {r r' : List Char}
    (hs : ∀ a ∈ s, ok a) (hs' : ∀ a ∈ s', ok a) (hr : stops r) (hr' : stops r')
    (h : s.flatMap code ++ r = s'.flatMap code ++ r') : s = s' ∧ r = r' := by
  induction s generalizing s' with
  | nil =>
    cases s' with
    | nil => exact ⟨rfl, h⟩
    | cons b s' =>
      rw [List.flatMap_nil, List.nil_append, List.flatMap_cons, List.append_assoc] at h
      exact absurd (h ▸ hr) (hstops b _ (hs' b List.mem_cons_self))
  | cons a s ih =>
    rw [List.flatMap_cons, List.append_assoc] at h
    cases s' with
    | nil =>
      rw [List.flatMap_nil, List.nil_append] at h
      exact absurd (h ▸ hr') (hstops a _ (hs a List.mem_cons_self))
    | cons b s' =>
      rw [List.flatMap_cons, List.append_assoc] at h
      obtain rfl := hcode a b _ _ (hs a List.mem_cons_self) (hs' b List.mem_cons_self) h
      obtain ⟨rfl, hrest⟩ := ih (fun c hc => hs c (List.mem_cons_of_mem a hc))
        (fun c hc => hs' c (List.mem_cons_of_mem a hc)) (List.append_cancel_left h)
      exact ⟨rfl, hrest⟩

/-- Two texts that end before the first character of a kind are told apart by where it stands. -/
theorem append_cancel_of_notMem {kind s s' r r' : List Char} {c c' : Char}
    (hs : ∀ d ∈ s, d ∉ kind) (hs' : ∀ d ∈ s', d ∉ kind) (hc : c ∈ kind) (hc' : c' ∈ kind)
    (h : s ++ c :: r = s' ++ c' :: r') : s = s' ∧ c :: r = c' :: r' := by
  refine flatMap_cancel (fun d => [d]) (fun d => d ∉ kind)
    (fun l => ∃ d ∈ l.head?, d ∈ kind) ?_ ?_ hs hs' ⟨c, rfl, hc⟩ ⟨c', rfl, hc'⟩ (by simpa using h)
  · intro a b r r' _ _ heq
    exact (List.cons.inj heq).1
  · rintro a r ha ⟨d, hhead, hd⟩
    obtain rfl := Option.some.inj hhead
    exact ha hd

namespace Markup

/-! ## Trees and their normal forms -/

/-- The characters that separate the parts of a tag. -/
def delimiters : List Char := [' ', '=', '>', '/', '!']

/-- There is no delimiter in the name of an element or of an attribute. -/
def IsName (s : String) : Prop := ∀ c ∈ s.toList, c ∉ delimiters

/-- The end of a comment does not stand in a text. -/
def IsRemark (s : String) : Prop := ¬ ['-', '-', '>'] <:+: s.toList

mutual

/-- A tree of elements, texts and comments: the names are names, a void element is empty and no
comment holds the end of one. -/
def Plain : Markup → Prop
  | .element tag attrs children => IsName tag ∧ (∀ a ∈ attrs, IsName a.1) ∧
    (isVoid tag = true → children = []) ∧ AllPlain children
  | .text _ => True
  | .raw _ => False
  | .comment s => IsRemark s

/-- A row of such trees. -/
def AllPlain : List Markup → Prop
  | [] => True
  | piece :: rest => Plain piece ∧ AllPlain rest

end

/-- A text in front of a row of trees: nothing if it is empty, and part of the text that is first
in the row if there is one. -/
def prependText (s : String) : List Markup → List Markup
  | .text s' :: rest => .text (s ++ s') :: rest
  | rest => if s = "" then rest else .text s :: rest

mutual

/-- A tree without empty and adjacent texts. -/
def normal : Markup → Markup
  | .element tag attrs children => .element tag attrs (normalAll children)
  | .text s => .text s
  | .raw s => .raw s
  | .comment s => .comment s

/-- A row of trees without empty and adjacent texts. -/
def normalAll : List Markup → List Markup
  | [] => []
  | .text s :: rest => prependText s (normalAll rest)
  | piece :: rest => normal piece :: normalAll rest

end

/-! ## What printed markup begins with -/

/-- What can stand in printed markup. -/
inductive Mark where
  | ending
  | element
  | comment
  | text
  deriving DecidableEq

/-- What a printed text begins with: the first character says whether it is a text, and the second
one tells an end tag, a comment and an element apart. -/
def mark : List Char → Mark
  | [] => .ending
  | c :: l =>
    if c ≠ '<' then .text
    else if l.head? = some '/' then .ending
    else if l.head? = some '!' then .comment
    else .element

/-- What a row of trees begins with. -/
def firstMark : List Markup → Mark
  | [] => .ending
  | .element .. :: _ => .element
  | .comment _ :: _ => .comment
  | .text _ :: _ | .raw _ :: _ => .text

mutual

/-- A plain tree in normal form. -/
def Normal : Markup → Prop
  | .element tag attrs children => IsName tag ∧ (∀ a ∈ attrs, IsName a.1) ∧
    (isVoid tag = true → children = []) ∧ AllNormal children
  | .text s => s ≠ ""
  | .raw _ => False
  | .comment s => IsRemark s

/-- A row of plain trees in normal form, with no two texts beside each other. -/
def AllNormal : List Markup → Prop
  | [] => True
  | piece :: rest => Normal piece ∧ (firstMark [piece] = .text → firstMark rest ≠ .text) ∧
    AllNormal rest

end

/-! ## Texts, comments and start tags -/

theorem escapeTextChar_cancel {c d : Char} {r r' : List Char}
    (h : escapeTextChar c ++ r = escapeTextChar d ++ r') : c = d := by
  unfold escapeTextChar at h
  split_ifs at h <;> grind

theorem mark_escapeTextChar (c : Char) (r : List Char) :
    mark (escapeTextChar c ++ r) = .text := by
  unfold escapeTextChar
  split_ifs <;> simp_all [mark]

theorem escapeAttributeChar_cancel {c d : Char} {r r' : List Char}
    (h : escapeAttributeChar c ++ r = escapeAttributeChar d ++ r') : c = d := by
  unfold escapeAttributeChar at h
  split_ifs at h <;> grind

theorem head?_escapeAttributeChar (c : Char) (r : List Char) :
    (escapeAttributeChar c ++ r).head? ≠ some '"' := by
  unfold escapeAttributeChar
  split_ifs <;> simp_all

theorem toList_escapeText (s : String) :
    (escapeText s).toList = s.toList.flatMap escapeTextChar :=
  String.toList_ofList

theorem toList_escapeAttribute (s : String) :
    (escapeAttribute s).toList = s.toList.flatMap escapeAttributeChar :=
  String.toList_ofList

/-- Texts are told apart, if no text stands behind them. -/
theorem escapeText_cancel {s s' : String} {r r' : List Char} (hr : mark r ≠ .text)
    (hr' : mark r' ≠ .text) (h : (escapeText s).toList ++ r = (escapeText s').toList ++ r') :
    s = s' ∧ r = r' := by
  rw [toList_escapeText, toList_escapeText] at h
  have key := flatMap_cancel escapeTextChar (fun _ => True) (fun l => mark l ≠ .text)
    (fun _ _ _ _ _ _ => escapeTextChar_cancel)
    (fun c r _ hstops => hstops (mark_escapeTextChar c r)) (fun _ _ => trivial)
    (fun _ _ => trivial) hr hr' h
  exact ⟨String.toList_inj.1 key.1, key.2⟩

/-- The value of an attribute ends at the quote behind it. -/
theorem escapeAttribute_cancel {s s' : String} {r r' : List Char}
    (h : (escapeAttribute s).toList ++ '"' :: r = (escapeAttribute s').toList ++ '"' :: r') :
    s = s' ∧ r = r' := by
  rw [toList_escapeAttribute, toList_escapeAttribute] at h
  have key := flatMap_cancel escapeAttributeChar (fun _ => True) (fun l => l.head? = some '"')
    (fun _ _ _ _ _ _ => escapeAttributeChar_cancel)
    (fun c r _ => head?_escapeAttributeChar c r) (fun _ _ => trivial) (fun _ _ => trivial)
    rfl rfl h
  exact ⟨String.toList_inj.1 key.1, (List.cons.inj key.2).2⟩

/-- The written form of an attribute. -/
def attributeCode (a : String × String) : List Char :=
  ' ' :: (a.1.toList ++ '=' :: '"' :: ((escapeAttribute a.2).toList ++ ['"']))

theorem attributeCode_cancel {a b : String × String} {r r' : List Char} (ha : IsName a.1)
    (hb : IsName b.1) (h : attributeCode a ++ r = attributeCode b ++ r') : a = b := by
  obtain ⟨name, value⟩ := a
  obtain ⟨name', value'⟩ := b
  simp only [attributeCode, List.cons_append, List.append_assoc, List.nil_append,
    List.cons.injEq, true_and] at h
  obtain ⟨hname, hrest⟩ := append_cancel_of_notMem ha hb (by decide) (by decide) h
  have hvalue := escapeAttribute_cancel (List.cons.inj (List.cons.inj hrest).2).2
  exact Prod.ext (String.toList_inj.1 hname) hvalue.1

theorem toList_startTag (tag : String) (attrs : Dict String) :
    (startTag tag attrs).toList =
      '<' :: (tag.toList ++ (attrs.flatMap attributeCode ++ ['>'])) := by
  have hcode : attributeCode = fun a =>
      ' ' :: (a.1.toList ++ '=' :: '"' :: ((escapeAttribute a.2).toList ++ ['"'])) := rfl
  simp [startTag, List.flatMap_map, hcode]

/-- The name of an element ends at a blank or a bracket. -/
theorem exists_delimiter (attrs : Dict String) (r : List Char) :
    ∃ c l, attrs.flatMap attributeCode ++ '>' :: r = c :: l ∧
      c ∈ delimiters ∧ c ≠ '/' ∧ c ≠ '!' := by
  cases attrs with
  | nil => exact ⟨'>', r, rfl, by decide⟩
  | cons a attrs => exact ⟨' ', _, rfl, by decide⟩

theorem startTag_cancel {tag tag' : String} {attrs attrs' : Dict String} {r r' : List Char}
    (htag : IsName tag) (htag' : IsName tag') (hattrs : ∀ a ∈ attrs, IsName a.1)
    (hattrs' : ∀ a ∈ attrs', IsName a.1)
    (h : (startTag tag attrs).toList ++ r = (startTag tag' attrs').toList ++ r') :
    tag = tag' ∧ attrs = attrs' ∧ r = r' := by
  simp only [toList_startTag, List.cons_append, List.append_assoc, List.nil_append,
    List.cons.injEq, true_and] at h
  obtain ⟨c, l, hl, hc, -⟩ := exists_delimiter attrs r
  obtain ⟨c', l', hl', hc', -⟩ := exists_delimiter attrs' r'
  rw [hl, hl'] at h
  obtain ⟨hname, hrest⟩ := append_cancel_of_notMem htag htag' hc hc' h
  rw [← hl, ← hl'] at hrest
  have key := flatMap_cancel attributeCode (fun a => IsName a.1) (fun l => l.head? = some '>')
    (fun _ _ _ _ => attributeCode_cancel)
    (fun a r _ => by simp [attributeCode]) hattrs hattrs' rfl rfl hrest
  exact ⟨String.toList_inj.1 hname, key.1, (List.cons.inj key.2).2⟩

theorem mark_startTag {tag : String} (attrs : Dict String) (r : List Char) (htag : IsName tag) :
    mark ((startTag tag attrs).toList ++ r) = .element := by
  rw [toList_startTag, List.cons_append, List.append_assoc, List.append_assoc,
    List.singleton_append]
  obtain ⟨c, l, hl, -, hslash, hbang⟩ := exists_delimiter attrs r
  rw [hl]
  cases hname : tag.toList with
  | nil => simp [mark, hslash, hbang]
  | cons d name =>
    have hd := htag d (by rw [hname]; exact List.mem_cons_self)
    simp only [delimiters, List.mem_cons, not_or] at hd
    simp [mark, hd]

/-- A comment ends at the first end of one. -/
theorem comment_cancel {s s' : String} {r r' : List Char} (hs : IsRemark s) (hs' : IsRemark s')
    (h : s.toList ++ '-' :: '-' :: '>' :: r = s'.toList ++ '-' :: '-' :: '>' :: r') :
    s = s' ∧ r = r' := by
  suffices hshort : ∀ {a s s' : List Char} {r r' : List Char}, ¬ ['-', '-', '>'] <:+: s' →
      s' = s ++ a → '-' :: '-' :: '>' :: r = a ++ '-' :: '-' :: '>' :: r' → a = [] by
    obtain ⟨a, hs'eq, hrest⟩ | ⟨a, hseq, hrest⟩ := List.append_eq_append_iff.1 h
    · obtain rfl := hshort hs' hs'eq hrest
      simp_all [String.toList_inj]
    · obtain rfl := hshort hs hseq hrest
      simp_all [String.toList_inj]
  intro a s s' r r' hs' hs'eq hrest
  match a with
  | [] => rfl
  | [_] => simp at hrest
  | [_, _] => simp at hrest
  | c :: d :: e :: a =>
    simp only [List.cons_append, List.cons.injEq] at hrest
    obtain ⟨rfl, rfl, rfl, -⟩ := hrest
    exact absurd ⟨s, a, by simp [hs'eq]⟩ hs'

/-! ## Rows of trees -/

theorem toList_print_element (tag : String) (attrs : Dict String) (children : List Markup) :
    (print (.element tag attrs children)).toList = (startTag tag attrs).toList ++
      if isVoid tag then []
      else (printAll children).toList ++ '<' :: '/' :: (tag.toList ++ ['>']) := by
  rw [print]
  split_ifs
  · rw [List.append_nil]
  · simp only [String.toList_append, List.append_assoc]
    rfl

theorem toList_print_comment (s : String) :
    (print (.comment s)).toList = '<' :: '!' :: '-' :: '-' :: (s.toList ++ ['-', '-', '>']) := by
  rw [print, String.toList_append, String.toList_append]
  rfl

theorem toList_printAll_cons (piece : Markup) (rest : List Markup) (r : List Char) :
    (printAll (piece :: rest)).toList ++ r =
      (print piece).toList ++ ((printAll rest).toList ++ r) := by
  rw [printAll, String.toList_append, List.append_assoc]

/-- The first two characters of a printed row tell of which kind the first tree of it is. -/
theorem mark_printAll {f : List Markup} {r : List Char} (hf : AllNormal f)
    (hr : mark r = .ending) : mark ((printAll f).toList ++ r) = firstMark f := by
  match f with
  | [] => exact hr
  | .element tag attrs children :: rest =>
    rw [toList_printAll_cons, toList_print_element, List.append_assoc, mark_startTag _ _ hf.1.1]
    rfl
  | .comment s :: rest =>
    rw [toList_printAll_cons, toList_print_comment]
    simp [mark, firstMark]
  | .text s :: rest =>
    obtain ⟨c, l, hl⟩ := List.exists_cons_of_ne_nil (mt String.toList_eq_nil_iff.1 hf.1)
    rw [toList_printAll_cons, print, toList_escapeText, hl, List.flatMap_cons, List.append_assoc,
      mark_escapeTextChar]
    rfl
  | .raw s :: rest => exact hf.1.elim

theorem exists_element_of_firstMark {f : List Markup} (h : firstMark f = .element) :
    ∃ tag attrs children rest, f = .element tag attrs children :: rest := by
  rcases f with _ | ⟨_ | _ | _ | _, rest⟩ <;> cases h
  exact ⟨_, _, _, rest, rfl⟩

theorem exists_comment_of_firstMark {f : List Markup} (h : firstMark f = .comment) :
    ∃ s rest, f = .comment s :: rest := by
  rcases f with _ | ⟨_ | _ | _ | _, rest⟩ <;> cases h
  exact ⟨_, rest, rfl⟩

theorem exists_text_of_firstMark {f : List Markup} (hf : AllNormal f) (h : firstMark f = .text) :
    ∃ s rest, f = .text s :: rest := by
  rcases f with _ | ⟨_ | s | _ | _, rest⟩
  case cons.text => exact ⟨s, rest, rfl⟩
  case cons.raw => exact hf.1.elim
  all_goals cases h

theorem eq_nil_of_firstMark {f : List Markup} (h : firstMark f = .ending) : f = [] := by
  rcases f with _ | ⟨_ | _ | _ | _, rest⟩
  case nil => rfl
  all_goals cases h

theorem firstMark_eq_of_printed {f f' : List Markup} {r r' : List Char} (hf : AllNormal f)
    (hf' : AllNormal f') (hr : mark r = .ending) (hr' : mark r' = .ending)
    (h : (printAll f).toList ++ r = (printAll f').toList ++ r') : firstMark f = firstMark f' := by
  rw [← mark_printAll hf hr, h, mark_printAll hf' hr']

/-- **Trees in normal form are read back from what is printed**, up to an end tag or the end of the
text, whatever stands behind it. -/
theorem printAll_cancel : (f f' : List Markup) → ∀ {r r' : List Char}, AllNormal f → AllNormal f' →
    mark r = .ending → mark r' = .ending →
    (printAll f).toList ++ r = (printAll f').toList ++ r' → f = f' ∧ r = r'
  | [] => by
    intro f' r r' hf hf' hr hr' h
    have hfirst := firstMark_eq_of_printed hf hf' hr hr' h
    obtain rfl := eq_nil_of_firstMark hfirst.symm
    exact ⟨rfl, h⟩
  | .element tag attrs children :: rest => by
    intro f' r r' hf hf' hr hr' h
    have hfirst := firstMark_eq_of_printed hf hf' hr hr' h
    obtain ⟨tag', attrs', children', rest', rfl⟩ := exists_element_of_firstMark hfirst.symm
    obtain ⟨⟨htag, hattrs, hvoid, hchildren⟩, -, hrest⟩ := hf
    obtain ⟨⟨htag', hattrs', hvoid', hchildren'⟩, -, hrest'⟩ := hf'
    simp only [toList_printAll_cons, toList_print_element, List.append_assoc] at h
    obtain ⟨rfl, rfl, hinside⟩ := startTag_cancel htag htag' hattrs hattrs' h
    split_ifs at hinside with hv
    · obtain ⟨rfl, rfl⟩ := printAll_cancel rest rest' hrest hrest' hr hr' hinside
      rw [hvoid hv, hvoid' hv]
      exact ⟨rfl, rfl⟩
    · simp only [List.append_assoc, List.cons_append] at hinside
      obtain ⟨rfl, hbehind⟩ :=
        printAll_cancel children children' hchildren hchildren' rfl rfl hinside
      simp only [List.cons.injEq, true_and, List.append_cancel_left_eq, List.nil_append] at hbehind
      obtain ⟨rfl, rfl⟩ := printAll_cancel rest rest' hrest hrest' hr hr' hbehind
      exact ⟨rfl, rfl⟩
  | .text s :: rest => by
    intro f' r r' hf hf' hr hr' h
    have hfirst := firstMark_eq_of_printed hf hf' hr hr' h
    obtain ⟨s', rest', rfl⟩ := exists_text_of_firstMark hf' hfirst.symm
    obtain ⟨-, hapart, hrest⟩ := hf
    obtain ⟨-, hapart', hrest'⟩ := hf'
    rw [toList_printAll_cons, toList_printAll_cons, print, print] at h
    obtain ⟨rfl, hbehind⟩ := escapeText_cancel (by rw [mark_printAll hrest hr]; exact hapart rfl)
      (by rw [mark_printAll hrest' hr']; exact hapart' rfl) h
    obtain ⟨rfl, rfl⟩ := printAll_cancel rest rest' hrest hrest' hr hr' hbehind
    exact ⟨rfl, rfl⟩
  | .comment s :: rest => by
    intro f' r r' hf hf' hr hr' h
    have hfirst := firstMark_eq_of_printed hf hf' hr hr' h
    obtain ⟨s', rest', rfl⟩ := exists_comment_of_firstMark hfirst.symm
    rw [toList_printAll_cons, toList_printAll_cons, toList_print_comment, toList_print_comment] at h
    simp only [List.cons_append, List.append_assoc, List.nil_append, List.cons.injEq, true_and] at h
    obtain ⟨rfl, hbehind⟩ := comment_cancel hf.1 hf'.1 h
    obtain ⟨rfl, rfl⟩ := printAll_cancel rest rest' hf.2.2 hf'.2.2 hr hr' hbehind
    exact ⟨rfl, rfl⟩
  | .raw _ :: _ => fun _ _ _ hf => hf.1.elim

/-! ## Normal forms -/

theorem escapeText_append (s s' : String) :
    escapeText (s ++ s') = escapeText s ++ escapeText s' :=
  String.toList_inj.1 (by simp [toList_escapeText])

theorem printAll_prependText (s : String) (f : List Markup) :
    printAll (prependText s f) = escapeText s ++ printAll f := by
  unfold prependText
  split
  · rw [printAll, printAll, print, print, escapeText_append, String.append_assoc]
  · split_ifs with hs
    · subst hs
      rfl
    · rw [printAll, print]

theorem allNormal_prependText (s : String) {f : List Markup} (hf : AllNormal f) :
    AllNormal (prependText s f) := by
  unfold prependText
  split
  · obtain ⟨hs', hapart, hrest⟩ := hf
    exact ⟨fun hnil => hs' (String.append_eq_empty_iff.1 hnil).2, hapart, hrest⟩
  · rename_i htext
    split_ifs with hs
    · exact hf
    · refine ⟨hs, fun _ hfirst => ?_, hf⟩
      obtain ⟨s', rest, rfl⟩ := exists_text_of_firstMark hf hfirst
      exact htext s' rest rfl

mutual

theorem print_normal : (t : Markup) → print (normal t) = print t
  | .element tag attrs children => by
    rw [normal, print, print, printAll_normalAll children]
  | .text _ | .raw _ | .comment _ => rfl

/-- A row prints the same without empty and adjacent texts. -/
theorem printAll_normalAll : (f : List Markup) → printAll (normalAll f) = printAll f
  | [] => rfl
  | .text s :: rest => by
    rw [normalAll, printAll_prependText, printAll_normalAll rest, printAll, print]
  | .element tag attrs children :: rest => by
    rw [normalAll, printAll, printAll, printAll_normalAll rest, print_normal]
    nofun
  | .raw s :: rest | .comment s :: rest => by
    rw [normalAll, printAll, printAll, printAll_normalAll rest, normal]
    nofun

end

mutual

theorem normal_normal : (t : Markup) → firstMark [t] ≠ .text → Plain t → Normal (normal t)
  | .element tag attrs children, _, h =>
    ⟨h.1, h.2.1, fun hv => by rw [h.2.2.1 hv]; rfl, allNormal_normalAll children h.2.2.2⟩
  | .comment _, _, h => h
  | .text _, hfirst, _ => absurd rfl hfirst

/-- A row of plain trees gets into normal form. -/
theorem allNormal_normalAll : (f : List Markup) → AllPlain f → AllNormal (normalAll f)
  | [], _ => trivial
  | .text s :: rest, h => allNormal_prependText s (allNormal_normalAll rest h.2)
  | .element _ _ _ :: rest, h =>
    ⟨normal_normal _ nofun h.1, nofun, allNormal_normalAll rest h.2⟩
  | .comment _ :: rest, h => ⟨h.1, nofun, allNormal_normalAll rest h.2⟩

end

/-- **Rows of trees print the same exactly if they are the same** but for empty and adjacent
texts. -/
theorem printAll_eq_printAll_iff {f f' : List Markup} (hf : AllPlain f) (hf' : AllPlain f') :
    printAll f = printAll f' ↔ normalAll f = normalAll f' := by
  constructor
  · intro h
    have hnormal : (printAll (normalAll f)).toList ++ [] =
        (printAll (normalAll f')).toList ++ [] := by
      rw [printAll_normalAll, printAll_normalAll, h]
    exact (printAll_cancel _ _ (allNormal_normalAll f hf) (allNormal_normalAll f' hf') rfl rfl
      hnormal).1
  · intro h
    rw [← printAll_normalAll f, ← printAll_normalAll f', h]

theorem headD_normalAll (t : Markup) : (normalAll [t]).headD (.text "") = normal t := by
  cases t with
  | text s =>
    rw [normalAll, normalAll, prependText, normal]
    · split_ifs with hs
      · rw [hs, List.headD_nil]
      · rfl
    · nofun
  | _ => rfl

/-- **Printed markup is unambiguous.** Two trees of elements, texts and comments print the same
exactly if they are the same but for empty and adjacent texts: no text and no value of an attribute
changes the elements that are read. -/
theorem print_eq_print_iff {t t' : Markup} (ht : Plain t) (ht' : Plain t') :
    print t = print t' ↔ normal t = normal t' := by
  constructor
  · intro h
    have hrow : printAll [t] = printAll [t'] := by
      rw [printAll, printAll.eq_def [t'], h]
    have hplain : AllPlain [t] := ⟨ht, trivial⟩
    have hplain' : AllPlain [t'] := ⟨ht', trivial⟩
    rw [← headD_normalAll, ← headD_normalAll, (printAll_eq_printAll_iff hplain hplain').1 hrow]
  · intro h
    rw [← print_normal t, ← print_normal t', h]

/-- A text that looks like the end of a paragraph does not make two paragraphs of one. -/
theorem print_paragraph_ne :
    print (.element "div" [("title", "\"><p>")] [.element "p" [] [.text "a</p><p>", .text "b"]]) ≠
      print (.element "div" [("title", "\"><p>")]
        [.element "p" [] [.text "a"], .element "p" [] [.text "b"]]) := by
  refine mt (print_eq_print_iff ?_ ?_).1 ?_
  · simp [Plain, AllPlain, IsName, delimiters, isVoid, voidTags]
  · simp [Plain, AllPlain, IsName, delimiters, isVoid, voidTags]
  · simp [normal, normalAll, prependText]

end Markup

end PageCompiler
