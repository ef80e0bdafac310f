/-
There is no text for an empty list and none for a number that is not finite, so a geometry comes
back exactly when its text had neither.
-/
import GeneGIS.Toolkit.Wkt

namespace GeneGIS.Toolkit.Wkt

open Fallible List

/-! ## Lists -/

def ItemEnds (rest : List Token) : Prop :=
  ∃ t others, rest = t :: others ∧ (t = .comma ∨ t = .closeParen)

def Closes (rest : List Token) : Prop := ∃ others, rest = .closeParen :: others

theorem settles_expect (after : List Token → Prop) (t : Token) :
    Settles after (expect t) [t] True () :=
  .of_reads fun _ _ => if_pos rfl

section

variable {α β γ : Type} {item : Parser β} {tokens : α → List Token} {good : α → Prop}
  {value : α → β}

theorem settles_more {l : List α} {fuel : Nat}
    (h : ∀ a ∈ l, Settles ItemEnds item (tokens a) (good a) (value a)) (hfuel : l.length ≤ fuel) :
    Settles Closes (more item fuel) (l.flatMap fun a => .comma :: tokens a)
      (∀ a ∈ l, good a) (l.map value) := by
  induction l generalizing fuel with
  | nil =>
    refine Settles.congr (.of_reads fun rest hrest => ?_) (by simp)
    obtain ⟨others, rfl⟩ := hrest
    cases fuel <;> rfl
  | cons a rest ih =>
    obtain ⟨fuel, rfl⟩ : ∃ n, fuel = n + 1 := ⟨fuel - 1, by rw [length_cons] at hfuel; omega⟩
    have hfirst := h a mem_cons_self
    have hothers := ih (fun b hb => h b (mem_cons_of_mem _ hb)) (Nat.le_of_succ_le_succ hfuel)
    have hnext : ∀ tail, Closes tail →
        ItemEnds ((rest.flatMap fun b => Token.comma :: tokens b) ++ tail) := by
      intro tail htail
      obtain ⟨others, rfl⟩ := htail
      cases rest with
      | nil => exact ⟨_, _, rfl, .inr rfl⟩
      | cons b rest => exact ⟨_, _, rfl, .inl rfl⟩
    have hboth := hfirst.bind (f := fun b => more item fuel >>= fun others => pure (b :: others))
      hothers.map hnext
    have hjoined : Settles Closes (more item (fuel + 1)) (.comma :: tokens a ++
        rest.flatMap fun b => .comma :: tokens b) (good a ∧ ∀ b ∈ rest, good b)
        (value a :: rest.map value) := by
      refine ⟨?_, ?_⟩
      · exact fun hg => hboth.reads hg
      · exact fun hbad => hboth.refuses hbad
    exact hjoined.congr forall_mem_cons

theorem commaTokens_cons (a : α) (l : List α) : commaTokens ((a :: l).map tokens) =
    tokens a ++ l.flatMap fun b => .comma :: tokens b := by
  induction l generalizing a with
  | nil => simp [commaTokens]
  | cons b rest ih =>
    rw [flatMap_cons, map_cons, commaTokens, map_cons, intercalate_cons_cons,
      ← map_cons, ← commaTokens, ih b, append_assoc]
    rfl

theorem settles_list {a : α} {l : List α}
    (h : ∀ b ∈ a :: l, Settles ItemEnds item (tokens b) (good b) (value b)) :
    Settles (fun _ => True) (list item) (parenTokens (commaTokens ((a :: l).map tokens)))
      (∀ b ∈ a :: l, good b) (value a, l.map value) := by
  have hfirst := h a mem_cons_self
  have hrest := fun b hb => h b (mem_cons_of_mem _ hb)
  have hmore : Settles Closes (fun text => more item text.length text)
      (l.flatMap fun b => Token.comma :: tokens b) (∀ b ∈ l, good b) (l.map value) := by
    have hfuel : ∀ rest : List Token, l.length ≤
        ((l.flatMap fun b => Token.comma :: tokens b) ++ rest).length := by
      intro rest
      rw [length_append]
      refine Nat.le_trans ?_ (Nat.le_add_right _ _)
      clear h hfirst hrest
      induction l with
      | nil => exact Nat.le_refl _
      | cons b l ih =>
        rw [flatMap_cons, length_append, length_cons, length_cons]
        omega
    exact ⟨fun hg rest hafter => (settles_more hrest (hfuel rest)).reads hg rest hafter,
      fun hbad rest hafter => (settles_more hrest (hfuel rest)).refuses hbad rest hafter⟩
  have hclose : Settles (fun _ => True) (expect .closeParen >>= fun _ =>
      (pure (value a, l.map value) : Parser (β × List β))) [Token.closeParen] True
      (value a, l.map value) := (settles_expect _ _).map
  have hthen := hmore.bind
    (f := fun others => expect .closeParen >>= fun _ =>
      (pure (value a, others) : Parser (β × List β))) hclose fun rest _ => ⟨rest, rfl⟩
  have hnext : ∀ rest, True → ItemEnds
      (((l.flatMap fun b => Token.comma :: tokens b) ++ [Token.closeParen]) ++ rest) := by
    intro rest _
    cases l with
    | nil => exact ⟨_, _, rfl, .inr rfl⟩
    | cons b l => exact ⟨_, _, rfl, .inl rfl⟩
  have hitems := hfirst.bind
    (f := fun first => (fun text => more item text.length text) >>= fun others =>
      expect .closeParen >>= fun _ => (pure (first, others) : Parser (β × List β))) hthen hnext
  have hall := (settles_expect (fun _ => True) .openParen).bind (f := fun _ => item >>= fun first =>
    (fun text => more item text.length text) >>= fun others =>
      expect .closeParen >>= fun _ => (pure (first, others) : Parser (β × List β))) hitems
    fun _ _ => trivial
  rw [commaTokens_cons, parenTokens, append_assoc]
  refine hall.congr ?_
  rw [forall_mem_cons]
  exact ⟨fun hg => ⟨trivial, hg.1, hg.2, trivial⟩, fun hg => ⟨hg.2.1, hg.2.2.1⟩⟩

theorem settles_items {f : List β → γ} {l : List α}
    (hnone : Refuses (fun _ => True) item [.closeParen])
    (h : ∀ b ∈ l, Settles ItemEnds item (tokens b) (good b) (value b)) :
    Settles (fun _ => True) (list item >>= fun x => pure (f (x.1 :: x.2)))
      (parenTokens (commaTokens (l.map tokens))) (ReadableList good l) (f (l.map value)) := by
  cases l with
  | nil =>
    refine ⟨fun hg => absurd rfl hg.1, fun _ => ?_⟩
    intro rest _
    obtain ⟨e, s, hitem⟩ := hnone rest trivial
    refine ⟨e, s, ?_⟩
    have hlist : list item (parenTokens [] ++ rest) = .error e s := by
      show (item >>= fun first => (fun text => more item text.length text) >>= fun others =>
        expect .closeParen >>= fun _ => (pure (first, others) : Parser (β × List β)))
        ([Token.closeParen] ++ rest) = _
      rw [bind_apply, hitem]
    show (list item >>= fun x => pure (f (x.1 :: x.2))) (parenTokens [] ++ rest) = _
    rw [bind_apply, hlist]
  | cons a l =>
    have hlist := (settles_list h).map (f := fun x : β × List β => f (x.1 :: x.2))
    exact hlist.congr ⟨fun hg => hg.2, fun hg => ⟨cons_ne_nil _ _, hg⟩⟩

end

theorem numbers_itemEnds {rest : List Token} (h : ItemEnds rest) : numbers rest = ([], rest) := by
  obtain ⟨t, others, rfl, rfl | rfl⟩ := h <;> rfl

theorem settles_coord (c : Coord) : Settles ItemEnds coord (coordTokens c) (FiniteCoord c) c := by
  constructor
  · intro hfinite rest hrest
    have htokens : coordTokens c = [.number c.x, .number c.y] := by
      rw [coordTokens, numToken, numToken, if_pos hfinite.1, if_pos hfinite.2]
    rw [htokens, coord]
    simp only [cons_append, nil_append, numbers, numbers_itemEnds hrest]
  · intro hbad rest _
    have hword : ∀ x : F64, x.isFinite = false → ∃ w, numToken x = .word w := by
      intro x hx
      rw [numToken, hx, if_neg Bool.false_ne_true]
      by_cases hnan : x.isNan = true
      · exact ⟨_, if_pos hnan⟩
      · exact ⟨_, if_neg hnan⟩
    cases hx : c.x.isFinite with
    | false =>
      obtain ⟨w, hw⟩ := hword c.x hx
      rw [coordTokens, hw]
      exact ⟨_, _, rfl⟩
    | true =>
      have hy : c.y.isFinite = false := by
        cases hy : c.y.isFinite with
        | false => rfl
        | true => exact absurd ⟨hx, hy⟩ hbad
      obtain ⟨w, hw⟩ := hword c.y hy
      rw [coordTokens, hw, numToken, hx, if_pos rfl]
      exact ⟨_, _, rfl⟩

theorem refuses_coord : Refuses (fun _ => True) coord [.closeParen] := fun _ _ => ⟨_, _, rfl⟩

theorem settles_line (l : LineString) : Settles (fun _ => True) line (parenTokens (lineTokens l))
    (ReadableList FiniteCoord l) l := by
  have hlist := settles_items (f := fun l => l) refuses_coord fun c (_ : c ∈ l) => settles_coord c
  rw [map_id'] at hlist
  exact hlist

theorem refuses_line : Refuses (fun _ => True) line [.closeParen] := fun _ _ => ⟨_, _, rfl⟩

theorem refuses_readPolygon : Refuses (fun _ => True) readPolygon [.closeParen] :=
  fun _ _ => ⟨_, _, rfl⟩

theorem settles_readPolygon (p : Polygon) : Settles (fun _ => True) readPolygon
    (parenTokens (polygonTokens p)) (ReadablePolygon p) p.again := by
  have hrings : ∀ r ∈ p.exterior :: p.interiors, Settles ItemEnds line (ringTokens r)
      (ReadableList FiniteCoord r.coords) r.coords :=
    fun r _ => (settles_line r.coords).weaken fun _ _ => trivial
  rw [← Polygon.new_coords]
  exact (settles_list hrings).map (f := fun x => Polygon.new x.1 x.2)

theorem settles_parenthesisedCoord (after : List Token → Prop) (c : Coord) :
    Settles after parenthesisedCoord (parenTokens (coordTokens c)) (FiniteCoord c) c := by
  have hclose : Settles after (expect .closeParen >>= fun _ => (pure c : Parser Coord))
      [Token.closeParen] True c := (settles_expect _ _).map
  have hcoord := (settles_coord c).bind
    (f := fun c => expect .closeParen >>= fun _ => (pure c : Parser Coord)) hclose
    fun _ _ => ⟨_, _, rfl, .inr rfl⟩
  have hall := (settles_expect (fun _ => True) .openParen).bind (f := fun _ => coord >>= fun c =>
    expect .closeParen >>= fun _ => (pure c : Parser Coord)) hcoord fun _ _ => trivial
  exact hall.congr ⟨fun hg => ⟨trivial, hg, trivial⟩, fun hg => hg.2.1⟩

theorem settles_multipointMember (c : Coord) : Settles ItemEnds multipointMember
    (parenTokens (coordTokens c)) (FiniteCoord c) c := by
  have hcoord := settles_parenthesisedCoord ItemEnds c
  have hopen : ∀ rest, multipointMember (parenTokens (coordTokens c) ++ rest) =
      parenthesisedCoord (parenTokens (coordTokens c) ++ rest) := fun _ => if_pos rfl
  refine ⟨fun hg rest hrest => ?_, fun hbad rest hrest => ?_⟩
  · rw [hopen]
    exact hcoord.reads hg rest hrest
  · rw [hopen]
    exact hcoord.refuses hbad rest hrest

theorem refuses_multipointMember : Refuses (fun _ => True) multipointMember [.closeParen] :=
  fun _ _ => ⟨_, _, rfl⟩

/-! ## Geometries -/

theorem ofKeyword?_keyword (kind : Kind) : Kind.ofKeyword? kind.keyword = some kind := by
  cases kind <;> decide

theorem ofKeyword?_eq {word : String} {kind : Kind} (h : Kind.ofKeyword? word = some kind) :
    word = kind.keyword := by
  have hfound := find?_some h
  exact (of_decide_eq_true hfound).symm

variable {outlines : Outlines} {depth : Nat}

def bodyOf (depth : Nat) (tag : Kind) : Option Kind → Parser Geometry
  | some kind => body (geometryTo depth) kind
  | none => throw (.unsupported tag.keyword)

theorem settles_tagged {after : List Token → Prop} {kind : Kind} {tokens : List Token}
    {good : Prop} {g : Geometry}
    (h : Settles after (body (geometryTo depth) kind) (parenTokens tokens) good g) :
    Settles after (geometryTo (depth + 1)) (.word kind.keyword :: parenTokens tokens) good g := by
  have hbody : ∀ rest, geometryTo (depth + 1) (.word kind.keyword :: parenTokens tokens ++ rest) =
      body (geometryTo depth) kind (parenTokens tokens ++ rest) := by
    intro rest
    show bodyOf depth kind (Kind.ofKeyword? kind.keyword) (parenTokens tokens ++ rest) = _
    rw [ofKeyword?_keyword]
    rfl
  refine ⟨fun hg rest hrest => ?_, fun hbad rest hrest => ?_⟩
  · rw [hbody]
    exact h.reads hg rest hrest
  · rw [hbody]
    exact h.refuses hbad rest hrest

theorem refuses_geometryTo (depth : Nat) :
    Refuses (fun _ => True) (geometryTo depth) [.closeParen] := by
  intro rest _
  cases depth <;> exact ⟨_, _, rfl⟩

theorem length_le_commaTokens {parts : List (List Token)} {part : List Token} (h : part ∈ parts) :
    part.length ≤ (commaTokens parts).length := by
  induction parts with
  | nil => cases h
  | cons first rest ih =>
    cases rest with
    | nil =>
      rw [mem_singleton.mp h, commaTokens, intercalate_singleton]
    | cons second rest =>
      rw [commaTokens, intercalate_cons_cons, ← commaTokens, length_append, length_append]
      rcases mem_cons.mp h with h | h
      · rw [h]
        omega
      · have hrest := ih h
        omega

theorem length_parenTokens (tokens : List Token) :
    (parenTokens tokens).length = tokens.length + 2 := by
  rw [parenTokens, length_cons, length_append, length_singleton]

theorem tokens_ne_nil (g : Geometry) : tokens outlines g ≠ [] := by
  cases g <;> rw [tokens] <;> exact cons_ne_nil _ _

mutual
theorem settles_geometryTo : ∀ (g : Geometry) (depth : Nat), (tokens outlines g).length ≤ depth →
      Settles (fun _ => True) (geometryTo depth) (tokens outlines g)
        (Readable (g.normalise outlines)) (g.normalise outlines).again
  | g, 0, hdepth =>
    absurd (length_eq_zero_iff.mp (Nat.le_zero.mp hdepth)) (tokens_ne_nil g)
  | .point p, _ + 1, _ =>
    settles_tagged ((settles_parenthesisedCoord _ p).map (f := Geometry.point))
  | .lineString l, _ + 1, _ =>
    settles_tagged ((settles_line l).map (f := Geometry.lineString))
  | .line start stop, _ + 1, _ =>
    settles_tagged ((settles_line [start, stop]).map (f := Geometry.lineString))
  | .polygon p, _ + 1, _ =>
    settles_tagged ((settles_readPolygon p).map (f := Geometry.polygon))
  | .rect r, _ + 1, _ =>
    settles_tagged ((settles_readPolygon (outlines.ofRect r)).map (f := Geometry.polygon))
  | .triangle t, _ + 1, _ =>
    settles_tagged ((settles_readPolygon (outlines.ofTriangle t)).map (f := Geometry.polygon))
  | .multiPoint points, _ + 1, _ => by
    have hlist := settles_items (f := Geometry.multiPoint) refuses_multipointMember
      fun p (_ : p ∈ points) => settles_multipointMember p
    rw [map_id'] at hlist
    exact settles_tagged hlist
  | .multiLineString lines, _ + 1, _ => by
    have hlist := settles_items (f := Geometry.multiLineString) refuses_line
      fun l (_ : l ∈ lines) => (settles_line l).weaken fun _ _ => trivial
    rw [map_id'] at hlist
    exact settles_tagged hlist
  | .multiPolygon polygons, _ + 1, _ =>
    settles_tagged (settles_items (f := Geometry.multiPolygon) refuses_readPolygon
      fun p (_ : p ∈ polygons) => (settles_readPolygon p).weaken fun _ _ => trivial)
  | .collection parts, depth + 1, hdepth => by
    rw [tokens, length_cons, length_parenTokens, partTokens_eq_map] at hdepth
    have hparts : ∀ part ∈ parts, (tokens outlines part).length ≤ depth := by
      intro part hpart
      have hlength := length_le_commaTokens
        (mem_map_of_mem (f := tokens outlines) hpart)
      omega
    have hlist := settles_items (f := Geometry.collection) (refuses_geometryTo depth)
      fun part hpart => (settles_parts parts depth hparts part hpart).weaken fun _ _ => trivial
    rw [tokens, partTokens_eq_map, Geometry.normalise, Geometry.again,
      Geometry.normaliseAll_eq_map, Geometry.againAll_eq_map, map_map]
    refine settles_tagged (hlist.congr ?_)
    rw [Readable, readableAll_iff, ReadableList, forall_mem_map]
    simp

theorem settles_parts : ∀ (parts : List Geometry) (depth : Nat),
    (∀ part ∈ parts, (tokens outlines part).length ≤ depth) →
      ∀ part ∈ parts, Settles (fun _ => True) (geometryTo depth)
        (tokens outlines part) (Readable (part.normalise outlines))
        (part.normalise outlines).again
  | [], _, _, _, h => by cases h
  | first :: rest, depth, hdepth, part, h => by
    rcases mem_cons.mp h with h | h
    · rw [h]
      exact settles_geometryTo first depth (hdepth first mem_cons_self)
    · exact settles_parts rest depth (fun p hp => hdepth p (mem_cons_of_mem _ hp)) part h
end

end GeneGIS.Toolkit.Wkt
