import Mathlib

/-!
# Sequential and positional decoders

Two kinds of decoders for records made of consecutive fields: readers, which consume a stream, and
layouts, which look at an offset of a buffer and say apart from that how far they reach.
-/

namespace StakePoolFogo.Codec

variable {β α γ : Type}

/-! ## Readers -/

/-- In front of anything, `bytes` are read as `a` and no more is consumed. -/
def Reads (read : StateT (List β) Option α) (bytes : List β) (a : α) : Prop :=
  ∀ rest, read (bytes ++ rest) = some (a, rest)

/-- Every value that `read` returns has the property `P`. -/
def Yields (P : α → Prop) (read : StateT (List β) Option α) : Prop :=
  ∀ input a rest, read input = some (a, rest) → P a

/-- Every value that `read` returns when the input starts with `bytes` has the property `P`. -/
def YieldsOn (P : α → Prop) (read : StateT (List β) Option α) (bytes : List β) : Prop :=
  ∀ rest a more, read (bytes ++ rest) = some (a, more) → P a

/-- Read `n` items one after another. -/
def readMany (read : StateT (List β) Option α) : Nat → StateT (List β) Option (List α)
  | 0 => pure []
  | n + 1 => do
    let a ← read
    let as ← readMany read n
    return a :: as

namespace Reads

variable {read : StateT (List β) Option α} {next : α → StateT (List β) Option γ} {bytes rest : List β}
  {parts : List (List β)} {a : α} {c : γ}

/-- After a field, the reader goes on with the rest of the record. -/
theorem step (h : Reads read bytes a) (rest : List β) : (read >>= next) (bytes ++ rest) = next a rest := by
  show (read (bytes ++ rest)).bind (fun x => next x.1 x.2) = _
  rw [h rest]
  rfl

theorem pure (a : α) : Reads (pure a) ([] : List β) a := fun _ => rfl

theorem bind (h : Reads read bytes a) (hnext : Reads (next a) rest c) :
    Reads (read >>= next) (bytes ++ rest) c := by
  intro more
  rw [List.append_assoc, h.step]
  exact hnext more

/-- A record given by its parts. -/
theorem field (h : Reads read bytes a) (hnext : Reads (next a) parts.flatten c) :
    Reads (read >>= next) (bytes :: parts).flatten c := by
  rw [List.flatten_cons]
  exact h.bind hnext

/-- A field that is read in two steps. -/
theorem tagged {select : α → StateT (List β) Option γ} {δ : Type} {next : γ → StateT (List β) Option δ}
    {d : δ} (h : Reads (read >>= select) bytes c) (hnext : Reads (next c) parts.flatten d) :
    Reads (read >>= fun x => select x >>= next) (bytes :: parts).flatten d := by
  rw [← bind_assoc]
  exact h.field hnext

theorem map (f : α → γ) (h : Reads read bytes a) : Reads (f <$> read) bytes (f a) := by
  intro more
  show (read (bytes ++ more)).bind (fun x => some (f x.1, x.2)) = _
  rw [h more]
  rfl

/-- The last field of a record. -/
theorem last (f : α → γ) (h : Reads read bytes a) :
    Reads (read >>= fun x => Pure.pure (f x)) bytes (f a) := by
  intro more
  rw [h.step]
  rfl

theorem many {encode : γ → List β} {view : γ → α} (items : List γ)
    (h : ∀ item ∈ items, Reads read (encode item) (view item)) :
    Reads (readMany read items.length) (items.map encode).flatten (items.map view) := by
  induction items with
  | nil => exact pure []
  | cons item items ih =>
    refine field (h item List.mem_cons_self) ?_
    exact (ih fun other hother => h other (List.mem_cons_of_mem _ hother)).last _

/-- Whatever stands behind them, bytes that are read as `a` are read as `a`. -/
theorem of_initial {data : List β} (h : Reads read bytes a) (hinitial : bytes <+: data) :
    read data = some (a, data.drop bytes.length) := by
  obtain ⟨rest, rfl⟩ := hinitial
  rw [h rest, List.drop_left]

/-- Codes of different values do not begin with one another. -/
theorem eq_of_initial {bytes' : List β} {a' : α} (h : Reads read bytes a) (h' : Reads read bytes' a')
    (hinitial : bytes <+: bytes') : a = a' := by
  have hread := h.of_initial hinitial
  have hread' := h'.of_initial (List.prefix_refl bytes')
  rw [hread] at hread'
  exact congrArg Prod.fst (Option.some.inj hread')

end Reads

namespace Yields

variable {P : α → Prop} {a : α}

theorem pure (h : P a) : Yields (β := β) P (pure a) := by
  intro input b rest hread
  cases hread
  exact h

theorem bind {read : StateT (List β) Option γ} {next : γ → StateT (List β) Option α}
    (h : ∀ c, Yields P (next c)) : Yields P (read >>= next) := by
  intro input a rest hread
  obtain ⟨⟨c, more⟩, -, hnext⟩ := Option.bind_eq_some_iff.mp hread
  exact h c more a rest hnext

end Yields

namespace YieldsOn

variable {P : α → Prop} {read : StateT (List β) Option γ} {next : γ → StateT (List β) Option α}
  {bytes : List β} {parts : List (List β)} {c : γ}

theorem field (h : Reads read bytes c) (hnext : YieldsOn P (next c) parts.flatten) :
    YieldsOn P (read >>= next) (bytes :: parts).flatten := by
  intro rest a more hread
  rw [List.flatten_cons, List.append_assoc, h.step] at hread
  exact hnext rest a more hread

theorem tagged {δ : Type} {tag : StateT (List β) Option δ} {select : δ → StateT (List β) Option γ}
    (h : Reads (tag >>= select) bytes c) (hnext : YieldsOn P (next c) parts.flatten) :
    YieldsOn P (tag >>= fun x => select x >>= next) (bytes :: parts).flatten := by
  rw [← bind_assoc]
  exact field h hnext

end YieldsOn

/-! ## Layouts -/

/-- A decoder at an offset of a buffer, and the length of what it decodes there. -/
structure Layout (β α : Type) where
  decode : List β → Nat → Option α
  getSpan : List β → Nat → Option Nat

/-- Wherever `bytes` stand in a buffer, they decode to `a` and the layout spans them. -/
structure Lays (layout : Layout β α) (bytes : List β) (a : α) : Prop where
  decode : ∀ before rest, layout.decode (before ++ (bytes ++ rest)) before.length = some a
  getSpan : ∀ before rest, layout.getSpan (before ++ (bytes ++ rest)) before.length = some bytes.length

/-- Interpret what a layout decodes. -/
def Layout.map (f : α → γ) (layout : Layout β α) : Layout β γ where
  decode buffer offset := (layout.decode buffer offset).map f
  getSpan := layout.getSpan

theorem Lays.map {layout : Layout β α} {bytes : List β} {a : α} (f : α → γ) (h : Lays layout bytes a) :
    Lays (layout.map f) bytes (f a) where
  decode before rest := by
    show (layout.decode (before ++ (bytes ++ rest)) before.length).map f = _
    rw [h.decode, Option.map_some]
  getSpan := h.getSpan

/-- The next field of a record: decode it and advance by its span. -/
def next (layout : Layout β α) (buffer : List β) : StateT Nat Option α := fun offset => do
  let a ← layout.decode buffer offset
  let span ← layout.getSpan buffer offset
  return (a, offset + span)

/-- Decode `n` items one after another. -/
def nextMany (layout : Layout β α) (buffer : List β) : Nat → StateT Nat Option (List α)
  | 0 => pure []
  | n + 1 => do
    let a ← next layout buffer
    let as ← nextMany layout buffer n
    return a :: as

/-- Decoding the fields of a record turns `bytes` into `a`, wherever they stand. -/
def Walks (walk : List β → StateT Nat Option α) (bytes : List β) (a : α) : Prop :=
  ∀ before rest, walk (before ++ (bytes ++ rest)) before.length = some (a, before.length + bytes.length)

namespace Walks

variable {layout : Layout β α} {bytes : List β} {parts : List (List β)} {a : α} {c : γ}
  {walk : List β → StateT Nat Option α} {f : List β → α → StateT Nat Option γ}

theorem pure (a : α) : Walks (fun _ => pure a) ([] : List β) a := fun _ _ => rfl

theorem of_lays (h : Lays layout bytes a) : Walks (next layout) bytes a := by
  intro before rest
  show (layout.decode (before ++ (bytes ++ rest)) before.length).bind _ = _
  rw [h.decode, Option.bind_some, h.getSpan]
  rfl

theorem bind {rest : List β} (h : Walks walk bytes a)
    (hnext : Walks (fun buffer => f buffer a) rest c) :
    Walks (fun buffer => walk buffer >>= f buffer) (bytes ++ rest) c := by
  intro before more
  have hplace : before ++ (bytes ++ rest ++ more) = before ++ (bytes ++ (rest ++ more)) := by
    simp only [List.append_assoc]
  have hfirst := h before (rest ++ more)
  have hrest := hnext (before ++ bytes) more
  rw [List.append_assoc, List.length_append] at hrest
  show (walk (before ++ (bytes ++ rest ++ more)) before.length).bind
    (fun x => f (before ++ (bytes ++ rest ++ more)) x.1 x.2) = _
  rw [hplace, hfirst, Option.bind_some, List.length_append, ← Nat.add_assoc]
  exact hrest

/-- A record given by its parts. -/
theorem field (h : Lays layout bytes a)
    (hnext : Walks (fun buffer => f buffer a) parts.flatten c) :
    Walks (fun buffer => next layout buffer >>= f buffer) (bytes :: parts).flatten c := by
  rw [List.flatten_cons]
  exact (of_lays h).bind hnext

/-- The last field of a record. -/
theorem last (g : α → γ) (h : Walks walk bytes a) :
    Walks (fun buffer => walk buffer >>= fun x => Pure.pure (g x)) bytes (g a) := by
  have hwalk := h.bind (f := fun _ x => Pure.pure (g x)) (.pure (g a))
  rwa [List.append_nil] at hwalk

theorem many {encode : γ → List β} {view : γ → α} (items : List γ)
    (h : ∀ item ∈ items, Lays layout (encode item) (view item)) :
    Walks (fun buffer => nextMany layout buffer items.length) (items.map encode).flatten
      (items.map view) := by
  induction items with
  | nil => exact pure []
  | cons item items ih =>
    refine field (h item List.mem_cons_self) ?_
    exact (ih fun other hother => h other (List.mem_cons_of_mem _ hother)).last (view item :: ·)

end Walks

end StakePoolFogo.Codec
