/-
In the text of a pointer every token follows a slash, and slashes and tildes of a token are
escaped.
-/
import GeneGIS.Data.Json

namespace GeneGIS

open List Nat

theorem Pointer.toString_injective {m n : Nat} (h : toString m = toString n) : m = n := by
  have hm : (toString m).toList = toDigits 10 m := toList_repr
  have hn : (toString n).toList = toDigits 10 n := toList_repr
  have hdigits : toDigits 10 m = toDigits 10 n := by rw [← hm, ← hn, h]
  have hm' : ofDigitChars 10 (toDigits 10 m) 0 = m :=
    ofDigitChars_toDigits (by decide) (by decide)
  have hn' : ofDigitChars 10 (toDigits 10 n) 0 = n :=
    ofDigitChars_toDigits (by decide) (by decide)
  rw [← hm', hdigits, hn']

theorem Pointer.isDigit_toString {n : Nat} {c : Char} (h : c ∈ (toString n).toList) :
    c.isDigit = true := by
  have hn : (toString n).toList = toDigits 10 n := toList_repr
  rw [hn] at h
  exact isDigit_of_mem_toDigits (by decide) (by decide) h

namespace Pointer

def escapeChar (c : Char) : List Char :=
  if c = '~' then ['~', '0'] else if c = '/' then ['~', '1'] else [c]

variable (token : List Char)

def escape : List Char := token.flatMap escapeChar

def unescape : List Char → List Char
  | [] => []
  | '~' :: '0' :: rest => '~' :: unescape rest
  | '~' :: '1' :: rest => '/' :: unescape rest
  | c :: rest => c :: unescape rest

theorem unescape_escape : unescape (escape token) = token := by
  induction token with
  | nil => rfl
  | cons c rest ih =>
    show unescape (escapeChar c ++ escape rest) = c :: rest
    by_cases htilde : c = '~'
    · rw [htilde]
      show '~' :: unescape (escape rest) = _
      rw [ih]
    · by_cases hslash : c = '/'
      · rw [hslash]
        show '/' :: unescape (escape rest) = _
        rw [ih]
      · rw [escapeChar, if_neg htilde, if_neg hslash]
        have hother : unescape (c :: escape rest) = c :: unescape (escape rest) := by
          rw [unescape.eq_4]
          · exact fun _ h => absurd h htilde
          · exact fun _ h => absurd h htilde
        rw [singleton_append, hother, ih]

theorem slash_not_mem_escape : '/' ∉ escape token := by
  intro h
  obtain ⟨c, -, hc⟩ := mem_flatMap.mp h
  rw [escapeChar] at hc
  by_cases htilde : c = '~'
  · rw [if_pos htilde] at hc
    exact absurd hc (by decide)
  · rw [if_neg htilde] at hc
    by_cases hslash : c = '/'
    · rw [if_pos hslash] at hc
      exact absurd hc (by decide)
    · rw [if_neg hslash] at hc
      exact hslash (mem_singleton.mp hc).symm

theorem escape_toString (n : Nat) : escape (toString n).toList = (toString n).toList := by
  have hall : ∀ c ∈ (toString n).toList, escapeChar c = [c] := by
    intro c hc
    have hdigit := Pointer.isDigit_toString hc
    rw [escapeChar, if_neg, if_neg]
    · intro h
      rw [h] at hdigit
      exact absurd hdigit (by decide)
    · intro h
      rw [h] at hdigit
      exact absurd hdigit (by decide)
  generalize (toString n).toList = digits at hall
  induction digits with
  | nil => rfl
  | cons c rest ih =>
    show escapeChar c ++ escape rest = c :: rest
    rw [hall c mem_cons_self, ih fun d hd => hall d (mem_cons_of_mem _ hd)]
    rfl

variable (tokens : List String)

def render : List Char := tokens.flatMap fun token => '/' :: escape token.toList

theorem render_append (tokens others : List String) :
    render (tokens ++ others) = render tokens ++ render others := flatMap_append

/-- What stands before the first slash, and the parts behind every slash. -/
def parts : List Char → List Char × List (List Char)
  | [] => ([], [])
  | c :: rest =>
    let (first, others) := parts rest
    if c = '/' then ([], first :: others) else (c :: first, others)

theorem parts_append {part : List Char} (h : '/' ∉ part) (rest : List Char) :
    parts (part ++ rest) = (part ++ (parts rest).1, (parts rest).2) := by
  induction part with
  | nil => rfl
  | cons c part ih =>
    have hc : c ≠ '/' := fun hc => h (by rw [hc]; exact mem_cons_self)
    rw [cons_append, parts, ih fun hmem => h (mem_cons_of_mem _ hmem)]
    simp only [if_neg hc, cons_append]

def parse (text : List Char) : Option (List String) :=
  match parts text with
  | ([], tokens) => some (tokens.map fun token => String.ofList (unescape token))
  | _ => none

theorem parts_render :
    parts (render tokens) = ([], tokens.map fun token => escape token.toList) := by
  induction tokens with
  | nil => rfl
  | cons token rest ih =>
    show parts ('/' :: (escape token.toList ++ render rest)) = _
    rw [parts, parts_append (slash_not_mem_escape _), ih]
    simp

theorem parse_render : parse (render tokens) = some tokens := by
  rw [parse, parts_render]
  simp only [map_map, Option.some.injEq]
  refine (map_congr_left fun token _ => ?_).trans (map_id _)
  show String.ofList (unescape (escape token.toList)) = token
  rw [unescape_escape, String.ofList_toList]

end Pointer

namespace Json

def child (token : String) : Json → Option Json
  | .obj members => members.lookup token
  | .arr items => ((range items.length).find? fun i => toString i = token).bind fun i => items[i]?
  | _ => none

def follow : List String → Json → Option Json
  | [], j => some j
  | token :: rest, j => (j.child token).bind (follow rest)

theorem child_index (items : List Json) (i : Nat) :
    (Json.arr items).child (toString i) = items[i]? := by
  rw [child]
  cases hfind : (range items.length).find? fun j => toString j = toString i with
  | some j =>
    have hj : j = i := Pointer.toString_injective (by simpa using find?_some hfind)
    rw [Option.bind_some, hj]
  | none =>
    have hi : i ∉ range items.length := by
      intro hmem
      have hne := find?_eq_none.mp hfind i hmem
      exact hne (decide_eq_true rfl)
    rw [mem_range] at hi
    rw [Option.bind_none, getElem?_eq_none (by omega)]

end Json
end GeneGIS
