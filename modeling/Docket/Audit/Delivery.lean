import Docket.Audit.Encoding

/-! # Delivery of events

Events are offered to a recorder, one at a time and in order. A recorder may fail to take an event;
whoever offers it goes on all the same.
-/

namespace Docket.Audit

/-- Takes events one at a time into what it keeps. -/
structure Recorder (σ : Type) where
  record : σ → Event → Except String Unit × σ

namespace Recorder

variable {σ : Type}

/-- Offers an event; a failure to take it goes no further. -/
def offer (r : Recorder σ) (kept : σ) (e : Event) : σ :=
  match r.record kept e with
  | (.ok (), kept) => kept
  | (.error _, kept) => kept

def offerAll (r : Recorder σ) (kept : σ) (events : List Event) : σ := events.foldl r.offer kept

def keeper : Recorder (List Event) := ⟨fun kept e => (.ok (), kept ++ [e])⟩

@[simp] theorem offerAll_nil (r : Recorder σ) (kept : σ) : r.offerAll kept [] = kept := rfl

theorem offerAll_append (r : Recorder σ) (kept : σ) (events more : List Event) :
    r.offerAll kept (events ++ more) = r.offerAll (r.offerAll kept events) more :=
  List.foldl_append

@[simp] theorem keeper_offerAll (kept events : List Event) :
    keeper.offerAll kept events = kept ++ events := by
  induction events generalizing kept with
  | nil => exact (List.append_nil kept).symm
  | cons e events ih => exact (ih (kept ++ [e])).trans (List.append_assoc kept [e] events)

end Recorder

def Sink.recorder : Sink → Recorder (List Json)
  | record => ⟨fun kept e => (.ok (), kept ++ [e.toJson])⟩
  | broken => ⟨fun kept _ => (.error "refused", kept)⟩
  | none => ⟨fun kept _ => (.ok (), kept)⟩
  | trace => ⟨fun kept e => (.ok (), kept ++ [.str e.text])⟩

theorem Sink.offerAll_recorder (sink : Sink) (kept : List Json) (events : List Event) :
    sink.recorder.offerAll kept events = kept ++ sink.keep events := by
  induction events generalizing kept with
  | nil => cases sink <;> exact (List.append_nil kept).symm
  | cons e events ih =>
    refine (ih (sink.recorder.offer kept e)).trans ?_
    cases sink with
    | record => exact List.append_assoc kept [e.toJson] _
    | trace => exact List.append_assoc kept [.str e.text] _
    | broken | none => rfl

end Docket.Audit
