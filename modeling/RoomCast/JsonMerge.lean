import RoomCast.JsonValue

namespace RoomCast

mutual

/-- The value that `target` becomes under the given one. -/
def Json.overlay (target : Json) : Json → Json
  | .object upper =>
    match target with
    | .object lower => .object (Json.overlayMembers lower upper)
    | _ => .object upper
  | v => v
termination_by structural v => v

def Json.overlayMembers (lower : List (String × Json)) : List (String × Json) → List (String × Json)
  | [] => lower
  | (key, v) :: upper =>
    match v with
    | .null => Json.overlayMembers lower upper
    | v =>
      let merged := match lookupMember key lower with
        | some below => Json.overlay below v
        | none => v
      Json.overlayMembers (insertMember key merged lower) upper
termination_by structural ms => ms

end

end RoomCast
