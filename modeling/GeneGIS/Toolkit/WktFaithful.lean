/-
A text is plain when the word for an empty geometry is not in it and the first two numbers of every
run are finite.
-/
import GeneGIS.Toolkit.WkbRoundTrip
import GeneGIS.Toolkit.WktRoundTrip
import Mathlib.Data.Nat.Digits.Defs

namespace GeneGIS.Toolkit.Wkt

open Fallible List EStateM Nat Text

/-- The first two numbers of every run are finite, `seen` numbers of the first run being over. -/
def finiteRuns : Nat → List Token → Bool
  | _, [] => true
  | seen, .number x :: rest => (2 ≤ seen || x.isFinite) && finiteRuns (seen + 1) rest
  | _, _ :: rest => finiteRuns 0 rest

def Plain (tokens : List Token) : Prop := .word "EMPTY" ∉ tokens ∧ finiteRuns 0 tokens = true

instance (tokens : List Token) : Decidable (Plain tokens) := by
  rw [Plain]
  infer_instance

variable {α : Type}

/-- What is read is good as far as the tokens that were taken are plain. -/
def Judges (m : Parser α) (good : α → Prop) : Prop :=
  ∀ tokens a rest, m tokens = .ok a rest → (Plain tokens ↔ good a ∧ Plain rest)

def Token.isNumber : Token → Bool
  | .number _ => true
  | _ => false

theorem plain_cons {t : Token} {rest : List Token} (hnumber : t.isNumber = false)
    (hempty : t ≠ .word "EMPTY") : Plain (t :: rest) ↔ Plain rest := by
  have hruns : finiteRuns 0 (t :: rest) = finiteRuns 0 rest := by
    cases t with
    | number x => cases hnumber
    | word w => rfl
    | openParen => rfl
    | closeParen => rfl
    | comma => rfl
  rw [Plain, Plain, List.mem_cons, not_or, hruns]
  exact ⟨fun h => ⟨h.1.2, h.2⟩, fun h => ⟨⟨hempty.symm, h.1⟩, h.2⟩⟩

theorem finiteRuns_numbers {seen : Nat} (h : 2 ≤ seen) (tokens : List Token) :
    finiteRuns seen tokens = finiteRuns 0 (numbers tokens).2 := by
  induction tokens generalizing seen with
  | nil => rfl
  | cons t rest ih =>
    cases t with
    | number x =>
      rw [finiteRuns, numbers, decide_eq_true h, Bool.true_or, Bool.true_and]
      exact ih (le_succ_of_le h)
    | word w => rfl
    | openParen => rfl
    | closeParen => rfl
    | comma => rfl

theorem mem_numbers (w : String) (tokens : List Token) :
    .word w ∈ tokens ↔ .word w ∈ (numbers tokens).2 := by
  induction tokens with
  | nil => rfl
  | cons t rest ih =>
    cases t with
    | number x =>
      rw [numbers, ← ih, List.mem_cons]
      simp
    | word v => rfl
    | openParen => rfl
    | closeParen => rfl
    | comma => rfl

/-! ## What the parsers keep -/

theorem expect_ok {t : Token} {tokens rest : List Token} {u : Unit}
    (h : expect t tokens = .ok u rest) : tokens = t :: rest := by
  cases tokens with
  | nil => cases h
  | cons found others =>
    rw [expect] at h
    by_cases hfound : found = t
    · rw [if_pos hfound, Result.ok.injEq] at h
      rw [hfound, h.2]
    · rw [if_neg hfound] at h
      cases h

theorem judges_coord : Judges coord FiniteCoord := by
  intro tokens c rest h
  rw [coord] at h
  rcases tokens with _ | ⟨first, tokens⟩
  · cases h
  · cases first with
    | number x =>
      rcases tokens with _ | ⟨second, others⟩
      · cases h
      · cases second with
        | number y =>
          simp only [numbers, Result.ok.injEq] at h
          obtain ⟨rfl, rfl⟩ := h
          have hruns : finiteRuns 0 (.number x :: .number y :: others) =
              (x.isFinite && (y.isFinite && finiteRuns 0 (numbers others).2)) := by
            rw [← finiteRuns_numbers (le_refl 2) others]
            rfl
          rw [Plain, Plain, FiniteCoord, hruns, ← mem_numbers, Bool.and_eq_true, Bool.and_eq_true]
          simp only [List.mem_cons, reduceCtorEq, false_or]
          constructor
          · exact fun hp => ⟨⟨hp.2.1, hp.2.2.1⟩, hp.1, hp.2.2.2⟩
          · exact fun hp => ⟨hp.2.1, hp.1.1, hp.1.2, hp.2.2⟩
        | _ => cases h
    | _ => cases h

theorem judges_more {item : Parser α} {good : α → Prop} (hitem : Judges item good)
    (fuel : Nat) : Judges (more item fuel) fun l => ∀ a ∈ l, good a := by
  induction fuel with
  | zero =>
    intro tokens l rest h
    rw [more, pure_ok] at h
    rw [← h.1, ← h.2]
    simp
  | succ fuel ih =>
    intro tokens l rest h
    have hstop : ∀ tokens : List Token,
        (.ok [] tokens : Result WktError (List Token) (List α)) = .ok l rest →
          (Plain tokens ↔ (∀ a ∈ l, good a) ∧ Plain rest) := by
      intro tokens hok
      rw [Result.ok.injEq] at hok
      rw [← hok.1, ← hok.2]
      simp
    match tokens with
    | [] => exact hstop _ h
    | .word _ :: _ => exact hstop _ h
    | .number _ :: _ => exact hstop _ h
    | .openParen :: _ => exact hstop _ h
    | .closeParen :: _ => exact hstop _ h
    | .comma :: others =>
      rw [more] at h
      obtain ⟨a, middle, hfirst, h⟩ := bind_ok.mp h
      obtain ⟨l', last, hothers, h⟩ := bind_ok.mp h
      rw [pure_ok] at h
      obtain ⟨rfl, rfl⟩ := h
      have hrest : Plain middle ↔ (∀ b ∈ l', good b) ∧ Plain last := ih _ _ _ hothers
      show _ ↔ (∀ b ∈ a :: l', good b) ∧ _
      rw [plain_cons rfl (by decide), hitem _ _ _ hfirst, hrest, List.forall_mem_cons, and_assoc]

theorem judges_list {item : Parser α} {good : α → Prop} (hitem : Judges item good) :
    Judges (list item) fun x => ∀ a ∈ x.1 :: x.2, good a := by
  intro tokens x rest h
  rw [list] at h
  obtain ⟨_, opened, hopen, h⟩ := bind_ok.mp h
  obtain ⟨a, middle, hfirst, h⟩ := bind_ok.mp h
  obtain ⟨l, last, hothers, h⟩ := bind_ok.mp h
  obtain ⟨_, closed, hclose, h⟩ := bind_ok.mp h
  rw [pure_ok] at h
  obtain ⟨rfl, rfl⟩ := h
  have hrest : Plain middle ↔ (∀ b ∈ l, good b) ∧ Plain last := judges_more hitem _ _ _ _ hothers
  show _ ↔ (∀ b ∈ a :: l, good b) ∧ _
  rw [expect_ok hopen, plain_cons rfl (by decide), hitem _ _ _ hfirst, hrest, expect_ok hclose,
    plain_cons rfl (by decide), List.forall_mem_cons, and_assoc]

theorem Judges.items {α β : Type} {item : Parser α} {good : α → Prop} {good' : β → Prop}
    {f : α × List α → β} (hitem : Judges item good)
    (hf : ∀ x : α × List α, good' (f x) ↔ ∀ a ∈ x.1 :: x.2, good a) :
    Judges (list item >>= fun x => pure (f x)) good' := by
  intro tokens b rest h
  obtain ⟨x, middle, hlist, h⟩ := bind_ok.mp h
  rw [pure_ok] at h
  obtain ⟨rfl, rfl⟩ := h
  rw [hf]
  exact judges_list hitem _ _ _ hlist

theorem readableList_cons {good : α → Prop} {a : α} {l : List α} :
    ReadableList good (a :: l) ↔ ∀ b ∈ a :: l, good b :=
  ⟨fun h => h.2, fun h => ⟨cons_ne_nil _ _, h⟩⟩

theorem judges_line : Judges line (ReadableList FiniteCoord) :=
  judges_coord.items fun _ => readableList_cons

theorem readable_close {line : LineString} :
    ReadableList FiniteCoord (LineString.close line) ↔ ReadableList FiniteCoord line := by
  by_cases h : LineString.isClosed line = true
  · rw [LineString.close, if_pos h]
  · rw [LineString.close, if_neg h]
    cases line with
    | nil => rfl
    | cons c rest =>
      rw [head?_cons, Option.toList_some, cons_append, readableList_cons, readableList_cons]
      simp only [List.mem_cons, List.mem_append, List.not_mem_nil, or_false]
      constructor
      · exact fun hall b hb => hall b (hb.imp_right .inl)
      · intro hall b hb
        rcases hb with hb | hb | hb
        · exact hall b (.inl hb)
        · exact hall b (.inr hb)
        · exact hall b (.inl hb)

theorem judges_readPolygon : Judges readPolygon ReadablePolygon := by
  refine judges_line.items fun x => ?_
  show (∀ r ∈ (x.1 :: x.2).map Ring.ofLine, ReadableList FiniteCoord r.coords) ↔ _
  rw [forall_mem_map]
  exact forall₂_congr fun _ _ => readable_close

theorem judges_parenthesisedCoord : Judges parenthesisedCoord FiniteCoord := by
  intro tokens c rest h
  rw [parenthesisedCoord] at h
  obtain ⟨_, opened, hopen, h⟩ := bind_ok.mp h
  obtain ⟨c', middle, hcoord, h⟩ := bind_ok.mp h
  obtain ⟨_, closed, hclose, h⟩ := bind_ok.mp h
  rw [pure_ok] at h
  obtain ⟨rfl, rfl⟩ := h
  rw [expect_ok hopen, plain_cons rfl (by decide), judges_coord _ _ _ hcoord, expect_ok hclose,
    plain_cons rfl (by decide)]

theorem judges_multipointMember : Judges multipointMember FiniteCoord := by
  intro tokens c rest h
  rw [multipointMember] at h
  by_cases hopen : tokens.head? = some .openParen
  · rw [if_pos hopen] at h
    exact judges_parenthesisedCoord _ _ _ h
  · rw [if_neg hopen] at h
    exact judges_coord _ _ _ h

theorem judges_qualifiers : Judges qualifiers fun empty => empty = false := by
  intro tokens empty rest h
  rw [qualifiers, Result.ok.injEq] at h
  obtain ⟨rfl, rfl⟩ := h
  have hstop : ∀ tokens : List Token, skipQualifiers tokens = (false, tokens) →
      (Plain tokens ↔ (skipQualifiers tokens).1 = false ∧ Plain (skipQualifiers tokens).2) := by
    intro tokens hskip
    rw [hskip]
    simp
  induction tokens with
  | nil => exact hstop _ rfl
  | cons t rest ih =>
    cases t with
    | number x => exact hstop _ rfl
    | openParen => exact hstop _ rfl
    | closeParen => exact hstop _ rfl
    | comma => exact hstop _ rfl
    | word w =>
      by_cases hskip : (w = "Z" || w = "M" || w = "ZM") = true
      · have hempty : Token.word w ≠ .word "EMPTY" := by
          intro hw
          rw [Token.word.inj hw] at hskip
          exact absurd hskip (by decide)
        have hrest : Plain rest ↔ (skipQualifiers rest).1 = false ∧
            Plain (skipQualifiers rest).2 := ih
        rw [plain_cons rfl hempty, hrest, skipQualifiers, if_pos hskip]
      · by_cases hempty : w = "EMPTY"
        · have hskipped : skipQualifiers (.word w :: rest) = (true, rest) := by
            rw [skipQualifiers, if_neg hskip, if_pos hempty]
          rw [hskipped, hempty, Plain]
          simp
        · refine hstop _ ?_
          rw [skipQualifiers, if_neg hskip, if_neg hempty]

theorem readable_emptyGeometry (kind : Kind) : ¬ Readable (emptyGeometry kind) := by
  cases kind <;> exact fun h => h.1 rfl

theorem judges_body {m : Parser Geometry} (hm : Judges m Readable) (kind : Kind) :
    Judges (body m kind) Readable := by
  cases kind with
  | point =>
    intro tokens g rest h
    obtain ⟨c, middle, hcoord, h⟩ := bind_ok.mp h
    rw [pure_ok] at h
    obtain ⟨rfl, rfl⟩ := h
    exact judges_parenthesisedCoord _ _ _ hcoord
  | lineString =>
    intro tokens g rest h
    obtain ⟨l, middle, hline, h⟩ := bind_ok.mp h
    rw [pure_ok] at h
    obtain ⟨rfl, rfl⟩ := h
    exact judges_line _ _ _ hline
  | polygon =>
    intro tokens g rest h
    obtain ⟨p, middle, hpolygon, h⟩ := bind_ok.mp h
    rw [pure_ok] at h
    obtain ⟨rfl, rfl⟩ := h
    exact judges_readPolygon _ _ _ hpolygon
  | multiPoint => exact judges_multipointMember.items fun _ => readableList_cons
  | multiLineString => exact judges_line.items fun _ => readableList_cons
  | multiPolygon => exact judges_readPolygon.items fun _ => readableList_cons
  | collection =>
    refine hm.items fun x => ?_
    rw [Readable, readableAll_iff]
    exact ⟨fun h => h.2, fun h => ⟨cons_ne_nil _ _, h⟩⟩

theorem judges_geometryTo (depth : Nat) : Judges (geometryTo depth) Readable := by
  induction depth with
  | zero =>
    intro tokens g rest h
    cases h
  | succ depth ih =>
    intro tokens g rest h
    rw [geometryTo] at h
    obtain ⟨word, afterWord, hword, h⟩ := bind_ok.mp h
    obtain ⟨empty, middle, hempty, h⟩ := bind_ok.mp h
    have htokens : tokens = .word word :: afterWord := by
      match tokens with
      | [] => cases hword
      | .word w :: others =>
        rw [keyword, Result.ok.injEq] at hword
        rw [hword.1, hword.2]
      | .number _ :: _ => cases hword
      | .openParen :: _ => cases hword
      | .closeParen :: _ => cases hword
      | .comma :: _ => cases hword
    cases hkind : Kind.ofKeyword? word with
    | none =>
      rw [hkind] at h
      cases h
    | some kind =>
      have hne : Token.word word ≠ .word "EMPTY" := by
        rw [ofKeyword?_eq hkind]
        cases kind <;> decide
      rw [htokens, plain_cons rfl hne, judges_qualifiers _ _ _ hempty]
      simp only [hkind] at h
      cases empty with
      | true =>
        rw [if_pos rfl, pure_ok] at h
        rw [← h.1]
        simp [readable_emptyGeometry]
      | false =>
        rw [if_neg Bool.false_ne_true] at h
        rw [judges_body ih kind _ _ _ h]
        simp

/-! ## Reading what was written -/

theorem head?_trim {s : String} {c : Char} (hc : isWhitespace c = false)
    (h : s.toList.head? = some c) : (Text.trim s).toList.head? = some c := by
  obtain ⟨rest, hs⟩ : ∃ rest, s.toList = c :: rest := by
    cases hs : s.toList with
    | nil => rw [hs] at h; cases h
    | cons d rest =>
      rw [hs, head?_cons, Option.some.injEq] at h
      exact ⟨rest, by rw [h]⟩
  rw [Text.trim, String.toList_ofList, hs, dropWhile_cons_of_neg (by rw [hc]; simp),
    reverse_cons, dropWhile_append]
  have hlast : [c].dropWhile isWhitespace = [c] := dropWhile_cons_of_neg (by rw [hc]; simp)
  rw [hlast]
  by_cases hempty : (rest.reverse.dropWhile isWhitespace).isEmpty = true
  · rw [if_pos hempty]
    rfl
  · rw [if_neg hempty, reverse_append]
    rfl

theorem write_lead (decimal : Decimal) (g : Geometry) :
    ∃ c, (c = 'P' ∨ c = 'L' ∨ c = 'M' ∨ c = 'G') ∧
    (write decimal outlines g).head? = some c := by
  have htagged : ∀ (kind : Kind) (body : List Char),
      ∃ c, (c = 'P' ∨ c = 'L' ∨ c = 'M' ∨ c = 'G') ∧ (tagged kind body).head? = some c := by
    intro kind body
    cases kind <;> exact ⟨_, by decide, rfl⟩
  cases g <;> exact htagged _ _

theorem withoutSrid_eq {text : String} {c : Char} (hc : c = 'P' ∨ c = 'L' ∨ c = 'M' ∨ c = 'G')
    (hhead : text.toList.head? = some c) : withoutSrid text = text.toList := by
  have hplain : isWhitespace c = false ∧ (c != ';') = true ∧
      'S' ≠ if 'a' ≤ c && c ≤ 'z' then Char.ofNat (c.toNat - 32) else c := by
    rcases hc with rfl | rfl | rfl | rfl <;> decide
  have htrim := head?_trim hplain.1 hhead
  rw [withoutSrid]
  generalize (Text.trim text).toList = trimmed at htrim
  have hlead : (String.ofList (trimmed.takeWhile fun c => c != ';')).toList.head? = some c := by
    rw [String.toList_ofList]
    cases trimmed with
    | nil => cases htrim
    | cons d rest =>
      rw [head?_cons, Option.some.injEq] at htrim
      rw [htrim, takeWhile_cons, if_pos hplain.2.1, head?_cons]
  have hagain := head?_trim hplain.1 hlead
  generalize Text.trim (String.ofList (trimmed.takeWhile fun c => c != ';')) = lead at hagain
  have hnot : "SRID=".toList.isPrefixOf (Text.toAsciiUppercase lead).toList = false := by
    rw [Text.toAsciiUppercase]
    cases hlist : lead.toList with
    | nil => rfl
    | cons d rest =>
      rw [hlist, head?_cons, Option.some.injEq] at hagain
      rw [map_cons, hagain, String.toList_ofList, String.toList_ofList]
      show ('S' == (if 'a' ≤ c && c ≤ 'z' then Char.ofNat (c.toNat - 32) else c) && _) = false
      rw [beq_false_of_ne hplain.2.2]
      rfl
  simp only [hnot, Bool.and_false, Bool.false_eq_true, if_false]

theorem withoutSrid_write (decimal : Decimal) (g : Geometry) :
    withoutSrid (String.ofList (write decimal outlines g)) = write decimal outlines g := by
  obtain ⟨c, hc, hhead⟩ := @write_lead outlines decimal g
  have htext : (String.ofList (write decimal outlines g)).toList = write decimal outlines g :=
    String.toList_ofList
  rw [← htext] at hhead
  rw [withoutSrid_eq hc hhead, htext]

theorem isNan_of_isFinite {x : F64} (h : x.isFinite = true) : x.isNan = false := by
  rw [F64.isFinite, bne_iff_ne] at h
  rw [F64.isNan, beq_false_of_ne h, Bool.false_and]

theorem startsAtNumber_of_readable {r : Ring} (h : ReadableList FiniteCoord r.coords) :
    r.startsAtNumber = true := by
  rw [Ring.startsAtNumber]
  cases hhead : r.coords.head? with
  | none => rfl
  | some c =>
    have hc := h.2 c (mem_of_mem_head? hhead)
    rw [Option.all_some, Coord.isNan, isNan_of_isFinite hc.1, isNan_of_isFinite hc.2]
    rfl

theorem startsAtNumbers_of_readablePolygon {p : Polygon} (h : ReadablePolygon p) :
    p.startsAtNumbers = true := by
  rw [Polygon.startsAtNumbers, Bool.and_eq_true, all_eq_true]
  exact ⟨startsAtNumber_of_readable (h _ mem_cons_self),
    fun r hr => startsAtNumber_of_readable (h r (mem_cons_of_mem _ hr))⟩

mutual
theorem startsAtNumbers_of_readable : ∀ g : Geometry, Readable g → g.startsAtNumbers = true
  | .polygon _, h => startsAtNumbers_of_readablePolygon h
  | .multiPolygon _, h =>
    all_eq_true.mpr fun p hp => startsAtNumbers_of_readablePolygon (h.2 p hp)
  | .collection parts, h => startsAllAtNumbers_of_readable parts h.2
  | .point _, _ | .line _ _, _ | .lineString _, _ | .multiPoint _, _ | .multiLineString _, _
  | .rect _, _ | .triangle _, _ => rfl

theorem startsAllAtNumbers_of_readable : ∀ parts : List Geometry, ReadableAll parts →
    Geometry.startsAllAtNumbers parts = true
  | [], _ => rfl
  | part :: rest, h => by
    rw [Geometry.startsAllAtNumbers, startsAtNumbers_of_readable part h.1,
      startsAllAtNumbers_of_readable rest h.2]
    rfl
end

mutual
theorem normalise_of_readable : ∀ g : Geometry, Readable g → g.normalise outlines = g
  | .collection parts, h => by
    rw [Geometry.normalise, normaliseAll_of_readable parts h.2]
  | .point _, _ | .lineString _, _ | .polygon _, _ | .multiPoint _, _ | .multiLineString _, _
  | .multiPolygon _, _ => rfl

theorem normaliseAll_of_readable : ∀ parts : List Geometry, ReadableAll parts →
    Geometry.normaliseAll outlines parts = parts
  | [], _ => rfl
  | part :: rest, h => by
    rw [Geometry.normaliseAll, normalise_of_readable part h.1, normaliseAll_of_readable rest h.2]
end

/-- A written geometry is read back in normal form if that is readable, and not at all
otherwise. -/
theorem read_write {decimal : Decimal} (hd : decimal.Exact) (g : Geometry) :
    (Readable (g.normalise outlines) →
      read decimal (String.ofList (write decimal outlines g)) = .ok (g.normalise outlines)) ∧
    (¬ Readable (g.normalise outlines) →
      ∃ e, read decimal (String.ofList (write decimal outlines g)) = .error e) := by
  have hread : read decimal (String.ofList (write decimal outlines g)) =
      (tokenize decimal (write decimal outlines g)).bind readTokens := by
    rw [read, withoutSrid_write]
    rfl
  have hsettles : Settles _ _ (tokens outlines g) _ _ := settles_geometryTo g _ (le_refl _)
  have hwritten : tokenize decimal (write decimal outlines g) = _ ∨ _ := tokenize_write hd g
  constructor
  · intro hreadable
    have hgeometry := hsettles.reads hreadable [] trivial
    rw [append_nil,
      Geometry.again_eq_self_iff.mpr (startsAtNumbers_of_readable _ hreadable)] at hgeometry
    rcases hwritten with htokens | ⟨hbad, -⟩
    · rw [hread, htokens, Except.bind, readTokens, geometry, hgeometry]
    · exact absurd hreadable hbad
  · intro hbad
    rcases hwritten with htokens | ⟨-, e, htokens⟩
    · obtain ⟨e, s, hgeometry⟩ := hsettles.refuses hbad [] trivial
      rw [append_nil] at hgeometry
      refine ⟨e, ?_⟩
      rw [hread, htokens, Except.bind, readTokens, geometry, hgeometry]
    · exact ⟨e, by rw [hread, htokens]; rfl⟩

/-- The text behind an `SRID=…;` has plain tokens. -/
def PlainText (decimal : Decimal) (text : String) : Prop :=
  ∃ tokens, tokenize decimal (withoutSrid text) = .ok tokens ∧ Plain tokens

theorem plainText_iff {decimal : Decimal} {text : String} {g : Geometry}
    (h : read decimal text = .ok g) : PlainText decimal text ↔ Readable g := by
  rw [read] at h
  obtain ⟨tokens, htokens, h⟩ := bind_iff.mp h
  have hgeometry : geometry tokens = .ok g [] := by
    rw [readTokens] at h
    cases hg : geometry tokens with
    | error e s => rw [hg] at h; cases h
    | ok g' rest =>
      rw [hg] at h
      cases rest with
      | nil => rw [Except.ok.inj h]
      | cons t rest => cases h
  have hjudged : Plain tokens ↔ Readable g ∧ Plain [] := judges_geometryTo _ _ _ _ hgeometry
  rw [and_iff_left (by decide)] at hjudged
  rw [← hjudged]
  constructor
  · intro hplain
    obtain ⟨tokens', htokens', hplain⟩ := hplain
    rw [htokens, Except.ok.injEq] at htokens'
    rw [htokens']
    exact hplain
  · exact fun hplain => ⟨tokens, htokens, hplain⟩

/-- What was read from a text is read from its own text exactly when the first text was plain. -/
theorem read_write_read_iff {decimal : Decimal} (hd : decimal.Exact) (outlines : Outlines)
    {text : String} {g : Geometry} (h : read decimal text = .ok g) :
    read decimal (String.ofList (write decimal outlines g)) = .ok g ↔ PlainText decimal text := by
  rw [plainText_iff h]
  obtain ⟨hgood, hbad⟩ : (Readable (g.normalise outlines) → _) ∧ _ := read_write hd g
  constructor
  · intro hsame
    by_cases hreadable : Readable (g.normalise outlines)
    · have hnormal := hgood hreadable
      rw [hsame, Except.ok.injEq] at hnormal
      rw [hnormal]
      exact hreadable
    · obtain ⟨e, he⟩ := hbad hreadable
      rw [hsame] at he
      cases he
  · intro hreadable
    have hnormal : g.normalise outlines = g := normalise_of_readable g hreadable
    rw [hnormal] at hgood
    exact hgood hreadable

namespace Sample

def one : F64 := .pack false (1023 * 2 ^ 52)

/-- Zero and one as they are printed, and every other number as its sixty-four bits. -/
def decimal : Decimal where
  display x :=
    if x = .zero then ['0']
    else if x = one then ['1']
    else '0' :: ((Nat.digits 10 x.bits.toNat).map Nat.digitChar ++ ['.'])
  parse
    | ['0'] => some .zero
    | ['1'] => some one
    | '0' :: rest =>
      some ⟨BitVec.ofNat 64 (ofDigits 10 (rest.dropLast.map fun c => c.toNat - 48))⟩
    | _ => none

theorem digitChar_lt {d : Nat} (h : d < 10) :
    (Nat.digitChar d).isDigit = true ∧ (Nat.digitChar d).toNat - 48 = d := by
  have hall : ∀ d < 10, (Nat.digitChar d).isDigit = true ∧ (Nat.digitChar d).toNat - 48 = d := by
    decide
  exact hall d h

theorem decimal_exact : decimal.Exact where
  digits := by
    intro x _
    by_cases hzero : x = .zero
    · exact ⟨'0', [], if_pos hzero, .inl rfl, by simp⟩
    · by_cases hone : x = one
      · exact ⟨'1', [], (if_neg hzero).trans (if_pos hone), .inl rfl, by simp⟩
      · refine ⟨'0', _, (if_neg hzero).trans (if_neg hone), .inl rfl, ?_⟩
        intro c hc
        rw [List.mem_append, mem_map, mem_singleton] at hc
        rcases hc with ⟨d, hd, rfl⟩ | rfl
        · exact .inl (digitChar_lt (Nat.digits_lt_base (by decide) hd)).1
        · exact .inr rfl
  parsed := by
    intro x _
    by_cases hzero : x = .zero
    · rw [hzero]
      rfl
    · by_cases hone : x = one
      · rw [hone]
        rfl
      · have hdisplay : decimal.display x =
            '0' :: ((Nat.digits 10 x.bits.toNat).map Nat.digitChar ++ ['.']) :=
          (if_neg hzero).trans (if_neg hone)
        have hdigits : ((Nat.digits 10 x.bits.toNat).map Nat.digitChar).map
            (fun c => c.toNat - 48) = Nat.digits 10 x.bits.toNat := by
          rw [map_map]
          refine (map_congr_left fun d hd => ?_).trans (map_id _)
          exact (digitChar_lt (Nat.digits_lt_base (by decide) hd)).2
        have hparse : ∀ rest : List Char, rest ≠ [] → decimal.parse ('0' :: rest) =
            some ⟨BitVec.ofNat 64 (ofDigits 10 (rest.dropLast.map fun c => c.toNat - 48))⟩ := by
          intro rest hrest
          cases rest with
          | nil => exact absurd rfl hrest
          | cons c rest => rfl
        rw [hdisplay, hparse _ (by simp), dropLast_concat, hdigits, ofDigits_digits,
          BitVec.ofNat_toNat, BitVec.setWidth_eq]
  sign := rfl

theorem point_read : read decimal (String.ofList (write decimal Wkb.Sample.corners
    (.point ⟨.zero, one⟩))) = .ok (.point ⟨.zero, one⟩) := by
  have htokens : tokenize decimal (withoutSrid "SRID=4326;POINT Z (0 1 0)") = .ok
      [.word "POINT", .word "Z", .openParen, .number .zero, .number one, .number .zero,
        .closeParen] := by
    rfl
  have hread : read decimal "SRID=4326;POINT Z (0 1 0)" = .ok (.point ⟨.zero, one⟩) := by
    rw [read, htokens]
    rfl
  exact (read_write_read_iff decimal_exact Wkb.Sample.corners hread).mpr
    ⟨_, htokens, by decide +kernel⟩

/-- The text of an empty line is no text of a line. -/
theorem empty_line_lost : ¬ ∀ (text : String) (g : Geometry), read decimal text = .ok g →
    read decimal (String.ofList (write decimal Wkb.Sample.corners g)) = .ok g := by
  intro h
  have htokens : tokenize decimal (withoutSrid "LINESTRING EMPTY") =
      .ok [.word "LINESTRING", .word "EMPTY"] := by
    rfl
  have hread : read decimal "LINESTRING EMPTY" = .ok (.lineString []) := by
    rw [read, htokens]
    rfl
  have hwritten : tokenize decimal (withoutSrid (String.ofList
      (write decimal Wkb.Sample.corners (.lineString [])))) =
        .ok [.word "LINESTRING", .openParen, .closeParen] := by
    decide +kernel
  have hlost := h _ _ hread
  rw [read, hwritten] at hlost
  cases hlost

end Sample

end GeneGIS.Toolkit.Wkt
