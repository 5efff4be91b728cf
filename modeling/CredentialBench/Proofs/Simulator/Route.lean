import CredentialBench.Proofs.Simulator.Demand

/-!
# Routes and their paths

Every route has its segments, and a path leads to the route exactly if it joins these with slashes
(`Route.ofPath?_eq_some_iff`). Nothing else does: no path with a slash more or less, and none that
spells a fixed segment in another way. The segments of a secret may be anything without a slash;
which key they name is told from what each is decoded to (`key?_eq_some_iff`).
-/

namespace CredentialBench

/-- The parts into which a text is divided, told from the text. -/
theorem Text.split_eq_iff {sep : Char} {cs : List Char} {parts : List (List Char)}
    (hne : parts ≠ []) :
    Text.split sep cs = parts ↔ cs = Text.join sep parts ∧ ∀ part ∈ parts, sep ∉ part := by
  constructor
  · rintro rfl
    exact ⟨(Text.join_split sep cs).symm, fun part hpart => Text.notMem_of_mem_split hpart⟩
  · rintro ⟨rfl, h⟩
    exact Text.split_join sep hne h

namespace Simulator

open Secret

/-- The segments of a route's path. -/
def Route.segments : Route → List String
  | login => ["", "v1", "auth", "approle", "login"]
  | health => ["", "v1", "sys", "health"]
  | secret service item =>
    ["", "v1", "secret", "data", "bootroot", "services", String.ofList service, String.ofList item]
  | control .setVersion => ["", "control", "set-version"]
  | control .failNext => ["", "control", "fail-next"]
  | reset => ["", "control", "reset"]

theorem Route.ofSegments?_eq_some_iff {segments : List String} {route : Route} :
    ofSegments? segments = some route ↔ segments = route.segments := by
  constructor
  · intro h
    rw [ofSegments?.eq_def] at h
    split at h
    all_goals cases h
    all_goals simp [Route.segments]
  · rintro rfl
    match route with
    | login | health | control .setVersion | control .failNext | reset => rfl
    | secret service item => simp [Route.segments, ofSegments?]

/-- **A path leads to a route exactly if it joins the segments of the route.** -/
theorem Route.ofPath?_eq_some_iff {path : List Char} {route : Route} :
    ofPath? path = some route ↔
      path = Text.join '/' (route.segments.map String.toList) ∧
        ∀ s ∈ route.segments, '/' ∉ s.toList := by
  have hne : route.segments.map String.toList ≠ [] := by
    match route with
    | login | health | secret _ _ | control .setVersion | control .failNext | reset => nofun
  have hmap {parts : List (List Char)} {segments : List String} :
      parts.map String.ofList = segments ↔ parts = segments.map String.toList := by
    constructor
    · rintro rfl
      simp
    · rintro rfl
      simp
  rw [ofPath?, ofSegments?_eq_some_iff, hmap, Text.split_eq_iff hne]
  simp

theorem join_secret (service item : List Char) :
    Text.join '/' (["", "v1", "secret", "data", "bootroot", "services"].map String.toList ++
        [service, item]) =
      "/v1/secret/data/bootroot/services/".toList ++ (service ++ '/' :: item) := by
  simp [Text.join]

/-- The paths of secrets. -/
theorem Route.ofPath?_eq_secret_iff {path service item : List Char} :
    ofPath? path = some (.secret service item) ↔
      path = "/v1/secret/data/bootroot/services/".toList ++ (service ++ '/' :: item) ∧
        '/' ∉ service ∧ '/' ∉ item := by
  have hsegments : (Route.secret service item).segments.map String.toList =
      ["", "v1", "secret", "data", "bootroot", "services"].map String.toList ++
        [service, item] := by
    simp [Route.segments]
  rw [ofPath?_eq_some_iff, hsegments, join_secret]
  simp [Route.segments]

theorem key?_eq_some_iff {service item : List Char} {k : Key} :
    key? service item = some k ↔
      decodeSegment? service = some k.service ∧ decodeSegment? item = some k.item.name := by
  obtain ⟨name, i⟩ := k
  rw [key?]
  cases decodeSegment? service with
  | none => simp
  | some s =>
    cases decodeSegment? item with
    | none => simp
    | some t =>
      have hname : Item.ofName? t = some i ↔ t = i.name := by
        rw [Item.ofName?_eq_some_iff, eq_comm]
      cases hi : Item.ofName? t with
      | none =>
        rw [hi] at hname
        simpa [hi] using fun _ => hname
      | some j =>
        rw [hi] at hname
        simpa [hi] using fun _ => hname

end Simulator

end CredentialBench
