import SchemaDepot.Registry.Resolution

/-! # Reads side by side

The versions of a level are read side by side, and which of these reads ends next is left open. Only
when all have ended the resolution goes on, to the next level or to its end.

* `Inquiry`: a resolution at work; `Inquiry.isOut`: a read of it that has not ended.
* `Resolver.inquire`: a resolution before any read has ended.
* `Resolver.turn`, `Resolver.run`: one read ends, or many, one after the other. -/

namespace SchemaDepot

/-- A resolution at work. -/
inductive Inquiry where
  /-- The reads for the references of a level were sent out. Some answers have arrived, each with
  the place of its reference; `above` are the versions of the levels above, and `room` levels below
  may hold versions not yet seen. -/
  | reading (level : List Reference) (arrived : List (Nat × Except Error Version))
      (above : List Version) (seen : List VersionId) (room : Nat)
  /-- It has come to an end. -/
  | ended (result : Except Error Resolution)

namespace Inquiry

/-- The answer for the reference at a place is still to come. -/
def isOut (place : Nat) : Inquiry → Bool
  | reading level arrived .. => place < level.length && !(arrived.map Prod.fst).contains place
  | ended _ => false

/-- What a resolution gives, once it has come to an end. -/
def result? : Inquiry → Option (Except Error Resolution)
  | reading .. => none
  | ended result => some result

end Inquiry

namespace Resolver

variable (r : Resolver) (fetch : VersionId → Except Error Version) (v : Version)

/-- Reads are sent out for the references whose versions were not seen before; if there are none,
the resolution is at its end. -/
def sendOut (above : List Version) (room : Nat) (seen : List VersionId) (refs : List Reference) :
    Inquiry :=
  match unseen seen refs with
  | ([], _) => .ended (.ok (.ofVersions v above))
  | (level, seen) =>
    match room with
    | 0 => .ended (.error (.dependencyTooDeep v.id r.limit))
    | room + 1 => .reading level [] above seen room

/-- A resolution before any read has ended. -/
def inquire : Inquiry :=
  match v.references with
  | .error e => .ended (.error e)
  | .ok refs => r.sendOut v [] r.limit [v.id] refs

/-- What follows when all answers to a level are there. -/
def conclude (level : List Reference) (arrived : List (Nat × Except Error Version))
    (above : List Version) (seen : List VersionId) (room : Nat) : Inquiry :=
  match gather level arrived with
  | .error e => .ended (.error e)
  | .ok versions =>
    match r.references versions with
    | .error e => .ended (.error e)
    | .ok next => r.sendOut v (above ++ versions) room seen next

/-- The read for the reference at a place ends; nothing, if it is not out. -/
def turn (q : Inquiry) (place : Nat) : Inquiry :=
  match q with
  | .ended result => .ended result
  | .reading level arrived above seen room =>
    match level[place]? with
    | none => q
    | some ref =>
      if (arrived.map Prod.fst).contains place then q
      else
        let arrived := arrived ++ [(place, fetch ref.id)]
        if arrived.length = level.length then r.conclude v level arrived above seen room
        else .reading level arrived above seen room

/-- The reads for the references at the places end, one after the other. -/
def run (q : Inquiry) (places : List Nat) : Inquiry := places.foldl (r.turn fetch v) q

end Resolver

end SchemaDepot
