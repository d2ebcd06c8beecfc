import JsonShape.Proofs.Json.Reader
import JsonShape.Proofs.TypeDef.RoundTrip
import JsonShape.Registry.Read

/-!
# Reading the text of a registry

A registry is read from its text type by type, and reading stops at the first error. It could be
read in two passes as well: first the whole JSON value, by `Json.readRaw`, and then the registry
from the value, by `Registry.ofJson`. Where the text is JSON, both answer the same, errors and their
places included, and where it is not, neither answers a registry (`ofBytes_eq`).

* `Streams` compares reading in one pass with reading in two, and `Streams.bind` puts comparisons
  together as the readers are.
* `streams_readTagged`, `streams_readDescription` and `streams_readEntries` follow the readers from
  the members of a description to the registry.
-/

namespace JsonShape

namespace Registry

open Json Decode

variable {α β γ δ : Type} {path : Json.Path} {c : Cursor}

/-- `r` reads in one pass what `raw` reads and `decode` makes of it, at a path given in reverse: the
same result, or the same misfit. Where `raw` finds a fault, `r` has found it or a misfit before. -/
def Streams (path : Json.Path) (raw : Except Fault β) (decode : β → Decoded γ)
    (r : Except RegistryFault γ) : Prop :=
  match raw with
  | .ok x =>
    match decode x with
    | .ok y => r = .ok y
    | .error m => ∃ p, r = .error ⟨path.reverse ++ m.path, .misfit m.error, p⟩
  | .error f => r = .error (.ofFault f) ∨ ∃ place e p, r = .error ⟨place, .misfit e, p⟩

theorem mapError_eq_ok {ε ε' : Type} {x : Except ε α} {f : ε → ε'} {y : α} :
    x.mapError f = .ok y ↔ x = .ok y := by
  cases x <;> simp [Except.mapError]

namespace Streams

/-- What is no registry, whatever `raw` reads, can be refused before it is read. -/
theorem refused_at {raw : Except Fault β} {decode : β → Decoded γ} {e : DecodeError}
    (place : Json.Path) (h : ∀ x, raw = .ok x → decode x = .error ⟨place, e⟩) (c : Cursor) :
    Streams path raw decode (refuse (place.reverse ++ path) e c) := by
  cases raw with
  | ok x =>
    rw [Streams, h x rfl]
    exact ⟨c.here, by rw [refuse, List.reverse_append, List.reverse_reverse]⟩
  | error f => exact Or.inr ⟨_, _, _, rfl⟩

theorem refused {raw : Except Fault β} {decode : β → Decoded γ} {e : DecodeError}
    (h : ∀ x, raw = .ok x → decode x = .error ⟨[], e⟩) (c : Cursor) :
    Streams path raw decode (refuse path e c) :=
  refused_at [] h c

/-- What `decode₁` makes of the first part decides how the second one is decoded, whether or not the
second one is read before. -/
theorem bind {raw₁ : Except Fault β} {decode₁ : β → Decoded γ} {r₁ : Except RegistryFault γ}
    {raw₂ : β → Except Fault δ} {D : γ → δ → Decoded α} {r₂ : γ → Except RegistryFault α}
    {decode : δ → Decoded α} (h₁ : Streams path raw₁ decode₁ r₁)
    (hdecode : ∀ x z, raw₂ x = .ok z → decode z = decode₁ x >>= fun y => D y z)
    (h₂ : ∀ x y, raw₁ = .ok x → decode₁ x = .ok y →
      Streams path (raw₂ x) (D y) (r₂ y)) :
    Streams path (raw₁ >>= raw₂) decode (r₁ >>= r₂) := by
  cases raw₁ with
  | error f =>
    rcases h₁ with rfl | ⟨place, e, p, rfl⟩
    · exact Or.inl rfl
    · exact Or.inr ⟨place, e, p, rfl⟩
  | ok x =>
    rw [Streams] at h₁
    have hdecode := hdecode x
    cases hx : decode₁ x with
    | ok y =>
      simp only [hx] at h₁ hdecode
      subst h₁
      have h₂ := h₂ x y rfl hx
      show Streams path (raw₂ x) decode (r₂ y)
      cases hraw : raw₂ x with
      | ok z =>
        rw [hraw] at h₂
        rw [Streams, hdecode z hraw]
        exact h₂
      | error f =>
        rw [hraw] at h₂
        exact h₂
    | error m =>
      simp only [hx] at h₁ hdecode
      obtain ⟨p, rfl⟩ := h₁
      show Streams path (raw₂ x) decode (.error _)
      cases hraw : raw₂ x with
      | ok z =>
        rw [Streams, hdecode z hraw]
        exact ⟨p, rfl⟩
      | error f => exact Or.inr ⟨_, _, _, rfl⟩

/-- What `raw₁` reads first, and no one decodes, is read first in both. -/
theorem after {raw₁ : Except Fault β} {raw₂ : β → Except Fault δ} {decode : δ → Decoded α}
    {r : β → Except RegistryFault α}
    (h : ∀ x, raw₁ = .ok x → Streams path (raw₂ x) decode (r x)) :
    Streams path (raw₁ >>= raw₂) decode (raw₁.mapError .ofFault >>= r) := by
  cases raw₁ with
  | ok x => exact h x rfl
  | error f => exact Or.inl rfl

/-- What has been read without decoding is decoded at the end. -/
theorem last {raw : Except Fault β} {decode : β → Decoded α} {r : β → Except RegistryFault α}
    (h : ∀ x, raw = .ok x → Streams path (.ok x) decode (r x)) :
    Streams path raw decode (raw.mapError .ofFault >>= r) := by
  cases raw with
  | ok x => exact h x rfl
  | error f => exact Or.inl rfl

theorem mapRaw {raw : Except Fault β} {decode : β → Decoded γ} {r : Except RegistryFault γ}
    {f : β → δ} {decode' : δ → Decoded γ} (h : Streams path raw decode r)
    (hdecode : ∀ x, decode' (f x) = decode x) :
    Streams path (raw >>= fun x => .ok (f x)) decode' r := by
  cases raw with
  | ok x =>
    show Streams path (.ok (f x)) decode' r
    rw [Streams, hdecode]
    exact h
  | error f => exact h

theorem map {raw : Except Fault β} {decode : β → Decoded γ} {r : Except RegistryFault γ}
    {f : β → δ} {g : γ → α} {decode' : δ → Decoded α} (h : Streams path raw decode r)
    (hdecode : ∀ x, decode' (f x) = (decode x).map g) :
    Streams path (raw >>= fun x => .ok (f x)) decode' (r >>= fun y => .ok (g y)) := by
  refine h.bind (D := fun y _ => .ok (g y)) ?_ fun x y _ hy => ?_
  · rintro x _ ⟨⟩
    rw [hdecode]
    cases decode x <;> rfl
  · rw [Streams]

/-- Seen from the whole, a part has its misfit under the `step` to it. -/
theorem under {step : Json.Step} {raw : Except Fault β} {decode : β → Decoded γ}
    {r : Except RegistryFault γ} (h : Streams (step :: path) raw decode r) :
    Streams path raw (fun x => (decode x).mapError (Misfit.under step)) r := by
  cases raw with
  | error f => exact h
  | ok x =>
    rw [Streams] at h ⊢
    cases hx : decode x with
    | ok y =>
      rw [hx] at h
      exact h
    | error m =>
      rw [hx] at h
      obtain ⟨p, rfl⟩ := h
      exact ⟨p, by simp [Misfit.under]⟩

end Streams

/-! ## Kinds -/

/-- A value that cannot be decoded is refused before it is read if it is an array or an object, and
behind it otherwise. -/
theorem streams_refuseValue {decode : Json × Cursor → Decoded γ} {depth : Nat} {expected : String}
    (h : ∀ v c', readRaw depth path c = .ok (v, c') →
      decode (v, c') = .error ⟨[], .invalidType (.ofJson v) expected⟩) :
    Streams path (readRaw depth path c) decode (refuseValue path expected c.skipBlanks) := by
  unfold refuseValue
  split
  case h_1 hpeek =>
    refine .refused (fun x hx => ?_) _
    obtain ⟨xs, hxs⟩ := eq_array_of_readRaw hpeek hx
    rw [h x.1 x.2 hx, hxs]
    rfl
  case h_2 hpeek =>
    refine .refused (fun x hx => ?_) _
    obtain ⟨ms, hms⟩ := eq_object_of_readRaw hpeek hx
    rw [h x.1 x.2 hx, hms]
    rfl
  case h_3 harray hobject =>
    rw [value, readRaw_scalar harray hobject 2 depth]
    refine .last fun x hx => .refused ?_ _
    obtain ⟨v, c'⟩ := x
    rintro _ ⟨⟩
    exact h v c' hx

theorem streams_readKind (depth : Nat) (path : Json.Path) (c : Cursor) :
    Streams path (readRaw depth path c)
      (fun x => ((TypeDef.readKind x.1).mapError fun e => ⟨[], e⟩).map (·, x.2))
      (readKind path c) := by
  unfold readKind
  dsimp only
  split
  case h_1 hpeek =>
    rw [readRaw_string hpeek]
    refine .after fun x _ => ?_
    obtain ⟨name, c'⟩ := x
    dsimp only
    rw [Streams, TypeDef.readKind]
    cases TypeDef.Kind.ofTag name with
    | ok kind => rfl
    | error e => exact ⟨_, by rw [List.append_nil]; rfl⟩
  case h_2 hpeek =>
    refine streams_refuseValue fun v c' hv => ?_
    have hstring := (peek?_of_readRaw hv).1
    cases v with
    | string s => exact absurd (hstring s rfl) hpeek
    | _ => rfl

/-- The kind of a description, where a step leads to it. -/
def kindAt (step : Json.Step) (v : Json) : Decoded TypeDef.Kind :=
  (TypeDef.readKind v).mapError fun e => ⟨[step], e⟩

theorem streams_kindAt (depth : Nat) (path : Json.Path) (step : Json.Step) (c : Cursor) :
    Streams path (readRaw depth (step :: path) c) (fun x => (kindAt step x.1).map (·, x.2))
      (readKind (step :: path) c) := by
  have h := (streams_readKind depth (step :: path) c).under
  have hdecode : (fun x : Json × Cursor => (kindAt step x.1).map (·, x.2)) = fun x =>
      (((TypeDef.readKind x.1).mapError fun e => (⟨[], e⟩ : Misfit)).map (·, x.2)).mapError
        (Misfit.under step) := by
    funext x
    rw [kindAt]
    cases TypeDef.readKind x.1 <;> rfl
  rw [hdecode]
  exact h

/-! ## Members -/

/-- A member called `name`: `decode₁` makes of its value what decides, with `D`, how the members
behind it are decoded. These begin at a cursor with less left than `c`. -/
theorem streams_member {depth : Nat} {name : String} {decode₁ : Json × Cursor → Decoded γ}
    {r₁ : Except RegistryFault γ} {D : γ → List (String × Json) × Cursor → Decoded α}
    {r₂ : γ → Except RegistryFault α} {decode : List (String × Json) × Cursor → Decoded α}
    (h₁ : Streams path (readRaw depth (.key name :: path) c) decode₁ r₁)
    (hdecode : ∀ v c₁ ms c₂,
      decode ((name, v) :: ms, c₂) = decode₁ (v, c₁) >>= fun y => D y (ms, c₂))
    (h₂ : ∀ v c₁ y, c₁.rest.length < c.rest.length → decode₁ (v, c₁) = .ok y →
      Streams path (readAllMembers depth path false c₁) (D y) (r₂ y)) :
    Streams path (do
      let (v, c) ← readRaw depth (.key name :: path) c
      let (ms, c) ← readAllMembers depth path false c
      .ok ((name, v) :: ms, c)) decode (r₁ >>= r₂) := by
  refine h₁.bind (D := fun y z => D y (z.1.tail, z.2)) ?_ ?_
  · rintro ⟨v, c₁⟩ ⟨ms, c'⟩ hz
    obtain ⟨⟨ms', c₂⟩, -, hz⟩ := Except.bind_eq_ok.1 hz
    cases hz
    exact hdecode v c₁ ms' _
  · rintro ⟨v, c₁⟩ y hv hy
    have hrest := h₂ v c₁ y (length_lt_of_readRaw hv) hy
    refine hrest.mapRaw (f := fun x => ((name, v) :: x.1, x.2)) fun _ => ?_
    rfl

/-! ## Descriptions -/

theorem splitKind_field {decodeKind : Json → Decoded TypeDef.Kind} {name : String}
    (hname : name ≠ TypeDef.kindKey) (kind : Option TypeDef.Kind) (v : Json)
    (ms : List (String × Json)) :
    TypeDef.splitKind decodeKind kind ((name, v) :: ms) =
      (TypeDef.splitKind decodeKind kind ms).map fun x => (x.1, (name, v) :: x.2) := by
  cases kind <;> rw [TypeDef.splitKind, if_neg hname]

/-- The members of a description: its kind, and those that are fields. -/
theorem streams_readTagged {depth : Nat} {steps : Nat} {first : Bool} {kind : Option TypeDef.Kind}
    (h : c.rest.length + 1 ≤ steps) :
    Streams path (readAllMembers depth path first c)
      (fun x => (TypeDef.splitKind (kindAt (.key TypeDef.kindKey)) kind x.1).map (·, x.2.skip))
      (readTagged depth path steps first kind c) := by
  induction steps generalizing c first kind with
  | zero => exact absurd h (by omega)
  | succ steps ih =>
    rw [readAllMembers_eq, readTagged]
    refine .after fun x hname => ?_
    obtain ⟨name?, c₁⟩ := x
    dsimp only
    cases name? with
    | none =>
      cases kind with
      | none => exact .refused (by rintro _ ⟨⟩; rfl) _
      | some kind => rfl
    | some name =>
      have hc₁ := (left_of_nextName (at_eq_ok.1 hname)).2 (by simp)
      dsimp only
      split
      · next hkind =>
        subst hkind
        cases kind with
        | some kind =>
          refine .refused (fun x hx => ?_) _
          obtain ⟨ms, c'⟩ := x
          obtain ⟨⟨_, c₂⟩, -, hx⟩ := Except.bind_eq_ok.1 hx
          obtain ⟨⟨v, c₃⟩, -, hx⟩ := Except.bind_eq_ok.1 hx
          obtain ⟨⟨ms', c₄⟩, -, hx⟩ := Except.bind_eq_ok.1 hx
          cases hx
          simp only [TypeDef.splitKind, if_pos]
          rfl
        | none =>
          refine .after fun x hcolon => ?_
          obtain ⟨_, c₂⟩ := x
          have hc₂ := (leaves_at (leaves_readColon c₁) path _ _ hcolon).length_le
          dsimp only
          refine streams_member (streams_kindAt depth path (.key TypeDef.kindKey) c₂)
            (D := fun y z => (TypeDef.splitKind (kindAt (.key TypeDef.kindKey)) (some y.1) z.1).map
              (·, z.2.skip)) (fun v c₃ ms c' => ?_) (fun v c₃ y hc₃ hk => ?_)
          · simp only [TypeDef.splitKind, if_pos]
            cases kindAt (.key TypeDef.kindKey) v <;> rfl
          · obtain ⟨k, -, hk⟩ := Except.map_eq_ok.1 hk
            cases hk
            exact ih (by omega)
      · next hkind =>
        refine .after fun x hcolon => ?_
        obtain ⟨_, c₂⟩ := x
        have hc₂ := (leaves_at (leaves_readColon c₁) path _ _ hcolon).length_le
        refine .after fun x hv => ?_
        obtain ⟨v, c₃⟩ := x
        dsimp only at hv ⊢
        have hc₃ := length_lt_of_readRaw hv
        refine .map (f := fun x => ((name, v) :: x.1, x.2))
          (g := fun x => ((x.1.1, (name, v) :: x.1.2), x.2)) (ih (c := c₃) (by omega)) fun x => ?_
        obtain ⟨ms, c'⟩ := x
        rw [splitKind_field hkind]
        cases TypeDef.splitKind (kindAt (.key TypeDef.kindKey)) kind ms <;> rfl

/-- The items of a description: its kind, and the fields in order. -/
theorem streams_readTaggedItems (depth : Nat) (path : Json.Path) (c : Cursor) :
    Streams path (readAllItems depth path 0 c)
      (fun x => (match x.1 with
        | v :: xs => (kindAt (.index 0) v).map (·, xs)
        | [] => fail (.missingField TypeDef.kindKey) : Decoded (TypeDef.Kind × List Json)).map
          (·, x.2.skip))
      (readTaggedItems depth path c) := by
  rw [readAllItems_eq, readTaggedItems]
  refine .after fun x _ => ?_
  obtain ⟨more, c₁⟩ := x
  dsimp only
  split
  · refine (streams_kindAt depth path (.index 0) c₁).bind
      (D := fun y z => .ok ((y.1, z.1.tail), z.2.skip)) ?_ ?_
    · rintro ⟨v, c₂⟩ ⟨xs, c'⟩ hz
      obtain ⟨⟨xs', c₃⟩, -, hz⟩ := Except.bind_eq_ok.1 hz
      cases hz
      dsimp only
      cases kindAt (.index 0) v <;> rfl
    · rintro ⟨v, c₂⟩ ⟨k, c'⟩ - hk
      obtain ⟨k', -, hk⟩ := Except.map_eq_ok.1 hk
      cases hk
      refine .after fun x _ => ?_
      obtain ⟨xs, c₃⟩ := x
      rfl
  · exact .refused (by rintro _ ⟨⟩; rfl) _

/-- The kind of a description, and the value of its fields. -/
def split : Json → Decoded (TypeDef.Kind × Json)
  | .object ms => (TypeDef.splitKind (kindAt (.key TypeDef.kindKey)) none ms).map
      fun x => (x.1, .object x.2)
  | .array xs =>
    (match xs with
      | v :: xs => (kindAt (.index 0) v).map (·, xs)
      | [] => fail (.missingField TypeDef.kindKey) : Decoded (TypeDef.Kind × List Json)).map
        fun x => (x.1, .array x.2)
  | v => mismatch v TypeDef.expectedDescription

theorem ofJson_eq (v : Json) :
    TypeDef.ofJson v = split v >>= fun x =>
      (TypeDef.ofContent x.1 x.2).mapError fun e => ⟨[], e⟩ := by
  cases v with
  | object ms =>
    show (TypeDef.splitKind (kindAt (.key TypeDef.kindKey)) none ms >>= _) = _
    rw [split]
    cases TypeDef.splitKind (kindAt (.key TypeDef.kindKey)) none ms <;> rfl
  | array xs =>
    cases xs with
    | nil => rfl
    | cons v xs =>
      show (kindAt (.index 0) v >>= _) = _
      rw [split]
      cases kindAt (.index 0) v <;> rfl
  | _ => rfl

theorem streams_readDescription (depth : Nat) (path : Json.Path) (c : Cursor) :
    Streams path (readRaw depth path c) (fun x => (split x.1).map (·, x.2))
      (readDescription depth path c) := by
  unfold readDescription
  dsimp only
  split
  case h_1 hpeek =>
    rw [readRaw, readRawAt]
    simp only [hpeek]
    exact Or.inl rfl
  case h_2 hpeek =>
    rw [readRaw_object hpeek]
    split
    · exact Or.inl rfl
    · have hskip := c.skipBlanks.skip_suffix.length_le
      have htagged : Streams path (readAllMembers (depth - 1) path true c.skipBlanks.skip) _
          (readTagged (depth - 1) path (c.skipBlanks.rest.length + 1) true none
            c.skipBlanks.skip) := streams_readTagged (by omega)
      refine htagged.map (f := fun x => (Json.object x.1, x.2.skip))
        (g := fun x => ((x.1.1, Json.object x.1.2), x.2)) fun x => ?_
      obtain ⟨ms, c'⟩ := x
      rw [split]
      cases TypeDef.splitKind (kindAt (.key TypeDef.kindKey)) none ms <;> rfl
  case h_3 hpeek =>
    rw [readRaw_array hpeek]
    split
    · exact Or.inl rfl
    · refine (streams_readTaggedItems _ path _).map (f := fun x => (Json.array x.1, x.2.skip))
        (g := fun x => ((x.1.1, Json.array x.1.2), x.2)) fun x => ?_
      obtain ⟨xs, c'⟩ := x
      cases xs with
      | nil => rfl
      | cons v xs =>
        rw [split]
        dsimp only
        cases kindAt (.index 0) v <;> rfl
  case h_4 b hobject harray hpeek =>
    have hscalar : c.skipBlanks.peek? ≠ some 91 ∧ c.skipBlanks.peek? ≠ some 123 := by
      rw [hpeek]
      exact ⟨fun h => harray (Option.some.inj h), fun h => hobject (Option.some.inj h)⟩
    rw [value, readRaw_scalar hscalar.1 hscalar.2 depth depth]
    refine .last fun x hv => .refused ?_ _
    obtain ⟨v, c'⟩ := x
    rintro _ ⟨⟩
    obtain ⟨-, hxs, hms⟩ := peek?_of_readRaw hv
    cases v with
    | array xs => exact absurd (hxs xs rfl) hscalar.1
    | object ms => exact absurd (hms ms rfl) hscalar.2
    | _ => rfl

/-! ## Registries -/

theorem streams_readEntries {depth steps : Nat} {first : Bool} {read : Registry}
    (h : c.rest.length + 1 ≤ steps) :
    Streams [] (readAllMembers depth [] first c) (fun x => ofMembers read x.1)
      (readEntries depth steps first read c) := by
  induction steps generalizing c first read with
  | zero => exact absurd h (by omega)
  | succ steps ih =>
    rw [readAllMembers_eq, readEntries]
    refine .after fun x hname => ?_
    obtain ⟨name?, c₁⟩ := x
    dsimp only
    cases name? with
    | none => rfl
    | some name =>
      have hc₁ := (left_of_nextName (at_eq_ok.1 hname)).2 (by simp)
      refine .after fun x hcolon => ?_
      obtain ⟨_, c₂⟩ := x
      have hc₂ := (leaves_at (leaves_readColon c₁) [] _ _ hcolon).length_le
      dsimp only
      refine streams_member (streams_readDescription depth [.key name] c₂).under
        (D := fun y z => ((TypeDef.ofContent y.1.1 y.1.2).mapError fun e =>
          (⟨[.key name], e⟩ : Misfit)) >>= fun d => ofMembers (Dict.insert read name d) z.1)
        (fun v c₃ ms c' => ?_) (fun v c₃ y hc₃ hsplit => ?_)
      · dsimp only
        rw [ofMembers, ofJson_eq]
        cases split v with
        | error m => rfl
        | ok x =>
          show ((Except.mapError _ (TypeDef.ofContent x.1 x.2)).mapError _ >>= _) =
            Except.mapError _ (TypeDef.ofContent x.1 x.2) >>= _
          cases TypeDef.ofContent x.1 x.2 <;> rfl
      · obtain ⟨⟨kind, content⟩, -, hx⟩ := Except.map_eq_ok.1 (mapError_eq_ok.1 hsplit)
        cases hx
        dsimp only
        cases hcontent : TypeDef.ofContent kind content with
        | ok d => exact ih (by omega)
        | error e =>
          refine .refused_at [.key name] (fun _ _ => ?_) _
          rfl

theorem streams_ofBytes (bytes : List UInt8) :
    Streams [] (readRaw defaultDepth [] (.ofBytes bytes)) (fun x => ofJson x.1)
      (ofBytes bytes) := by
  unfold ofBytes
  dsimp only
  split
  case h_1 hpeek =>
    rw [readRaw_object hpeek]
    have hskip := (Cursor.ofBytes bytes).skipBlanks.skip_suffix.length_le
    refine (streams_readEntries (by omega)).mapRaw fun _ => ?_
    rfl
  case h_2 hpeek =>
    rw [readRaw, readRawAt]
    simp only [hpeek]
    exact Or.inl rfl
  case h_3 b hobject hpeek =>
    refine streams_refuseValue fun v c' hv => ?_
    have hms := (peek?_of_readRaw hv).2.2
    cases v with
    | object ms => exact absurd (Option.some.inj (hpeek.symm.trans (hms ms rfl))) hobject
    | _ => rfl

/-- **A registry is read as its JSON value is decoded.** Where `Json.readRaw` reads the value `v` at
the start of `bytes`, `Registry.ofBytes` answers what `Registry.ofJson` makes of `v`: the same
registry, or an error with the same cause at the same path. Where `Json.readRaw` has a fault,
`Registry.ofBytes` has this one, unless what it had read before was no registry already. -/
theorem ofBytes_eq (bytes : List UInt8) :
    (∀ v c, readRaw defaultDepth [] (.ofBytes bytes) = .ok (v, c) →
      (ofBytes bytes).mapError (fun f => (f.path, f.cause)) =
        (ofJson v).mapError fun m => (m.path, .misfit m.error)) ∧
    ∀ f, readRaw defaultDepth [] (.ofBytes bytes) = .error f →
      ofBytes bytes = .error (.ofFault f) ∨
        ∃ path e p, ofBytes bytes = .error ⟨path, .misfit e, p⟩ := by
  have h := streams_ofBytes bytes
  refine ⟨fun v c hv => ?_, fun f hf => ?_⟩
  · rw [hv, Streams] at h
    dsimp only at h
    cases hjson : ofJson v with
    | ok r =>
      rw [hjson] at h
      rw [h]
      rfl
    | error m =>
      rw [hjson] at h
      obtain ⟨p, hp⟩ := h
      rw [hp]
      rfl
  · rw [hf] at h
    exact h

/-- A registry is read from `bytes` exactly if it is decoded from a JSON value at their start. -/
theorem ofBytes_eq_ok {bytes : List UInt8} {registry : Registry} :
    ofBytes bytes = .ok registry ↔ ∃ v c, readRaw defaultDepth [] (.ofBytes bytes) = .ok (v, c) ∧
      ofJson v = .ok registry := by
  obtain ⟨hok, herror⟩ := ofBytes_eq bytes
  cases hv : readRaw defaultDepth [] (.ofBytes bytes) with
  | error f =>
    rcases herror f hv with h | ⟨path, e, p, h⟩ <;> simp [h]
  | ok x =>
    obtain ⟨v, c⟩ := x
    have h := hok v c hv
    have hread : ofBytes bytes = .ok registry ↔ ofJson v = .ok registry := by
      rw [← mapError_eq_ok, h, mapError_eq_ok]
    rw [hread]
    refine ⟨fun hjson => ⟨v, c, rfl, hjson⟩, ?_⟩
    rintro ⟨_, _, ⟨⟩, hjson⟩
    exact hjson

/-- The types of a registry that is read have distinct names. -/
theorem nodup_names_of_ofBytes {bytes : List UInt8} {registry : Registry}
    (h : ofBytes bytes = .ok registry) : registry.names.Nodup := by
  obtain ⟨v, c, -, hjson⟩ := ofBytes_eq_ok.1 h
  exact nodup_of_ofJson hjson

/-- A registry that is read from a text is decoded from what `toJson` writes of it. -/
theorem ofJson_toJson_of_ofBytes {bytes : List UInt8} {registry : Registry}
    (h : ofBytes bytes = .ok registry) : ofJson registry.toJson = .ok registry :=
  ofJson_toJson (nodup_names_of_ofBytes h)

end Registry

end JsonShape
