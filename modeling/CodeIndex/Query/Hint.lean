import CodeIndex.Text.Lower
import CodeIndex.Text.Slice

/-!
# Hints

What to try when a search finds nothing: the names behind the topics that the query
mentions, or general advice.

* `hints_ne_nil` : there is always something to try.
* `nodup_hints` : and nothing twice.
-/

namespace CodeIndex.Query

/-- Topics and the names worth searching for instead. -/
def topics : List (String × List String) := [
  ("database", ["DatabaseDriver", "DatabaseQuery", "DatabaseInterface"]),
  ("db", ["DatabaseDriver", "DatabaseQuery"]),
  ("query", ["DatabaseQuery", "QueryInterface"]),
  ("sql", ["DatabaseQuery", "lookup_schema"]),
  ("table", ["Table", "lookup_schema"]),
  ("event", ["Event", "list_events"]),
  ("listener", ["Event", "Subscriber"]),
  ("plugin", ["CMSPlugin", "PluginInterface"]),
  ("module", ["ModuleHelper", "ModuleDispatcher"]),
  ("component", ["ComponentHelper", "MVCFactory"]),
  ("controller", ["BaseController", "FormController"]),
  ("model", ["BaseModel", "ListModel", "AdminModel"]),
  ("view", ["HtmlView", "AbstractView"]),
  ("form", ["Form", "FormField", "FormRule"]),
  ("field", ["FormField", "ListField"]),
  ("user", ["User", "UserHelper", "Authentication"]),
  ("auth", ["Authentication", "AuthenticationResponse"]),
  ("login", ["Authentication", "UserHelper"]),
  ("session", ["Session", "SessionInterface"]),
  ("cache", ["Cache", "CacheController"]),
  ("config", ["Registry", "ComponentHelper"]),
  ("router", ["Router", "SiteRouter"]),
  ("route", ["Route", "Router"]),
  ("language", ["Language", "Text"]),
  ("translate", ["Text", "Language"]),
  ("mail", ["Mail", "MailerFactory"]),
  ("file", ["File", "Folder", "Path"]),
  ("upload", ["File", "MediaHelper"]),
  ("image", ["Image", "MediaHelper"]),
  ("http", ["Http", "HttpFactory", "Uri"]),
  ("log", ["Log", "LogEntry"]),
  ("date", ["Date", "DateTime"]),
  ("access", ["Access", "Rules"]),
  ("permission", ["Access", "Rules"])]

/-- Advice for a query without a known topic. -/
def advice : List String := [
  "Try a shorter or partial name",
  "Search methods with --kind method",
  "List event classes with the events command"]

/-- Append the names that are not there yet. -/
def addNew (found names : List String) : List String :=
  names.foldl (fun found name => if found.contains name then found else found ++ [name]) found

/-- The names behind the topics that occur in a lower-case query, each once. -/
def topicHints (query : String) : List String :=
  topics.foldl (fun found (topic, names) =>
    if occursIn topic query then addNew found names else found) []

/-- What to try instead of a query that matched nothing. -/
def hints (query : String) : List String :=
  match topicHints (lowered query) with
  | [] => advice
  | found => found

/-- There is always something to try. -/
theorem hints_ne_nil (query : String) : hints query ≠ [] := by
  unfold hints
  split <;> simp_all [advice]

/-- A name is added to the end unless it is there. -/
theorem nodup_addOne {found : List String} (h : found.Nodup) (name : String) :
    (if found.contains name then found else found ++ [name]).Nodup := by
  split
  · exact h
  · rename_i hnew
    have hnot : name ∉ found := fun hmem => hnew (List.contains_iff_mem.mpr hmem)
    refine List.nodup_append.mpr ⟨h, by simp, ?_⟩
    intro a ha b hb heq
    rw [List.mem_singleton] at hb
    exact hnot (hb ▸ heq ▸ ha)

/-- New names are added once each. -/
theorem nodup_addNew {found : List String} (h : found.Nodup) (names : List String) :
    (addNew found names).Nodup := by
  induction names generalizing found with
  | nil => exact h
  | cons name names ih => exact ih (nodup_addOne h name)

/-- No hint is given twice. -/
theorem nodup_topicHints (query : String) : (topicHints query).Nodup := by
  -- Every topic keeps the names distinct, whatever the topics in front of it gave.
  have hfold : ∀ (entries : List (String × List String)) (found : List String), found.Nodup →
      (entries.foldl (fun found (topic, names) =>
        if occursIn topic query then addNew found names else found) found).Nodup := by
    intro entries
    induction entries with
    | nil => exact fun _ h => h
    | cons entry entries ih =>
      intro found h
      refine ih _ ?_
      show (if occursIn entry.1 query then addNew found entry.2 else found).Nodup
      split
      · exact nodup_addNew h entry.2
      · exact h
  exact hfold topics [] .nil

/-- No hint is given twice. -/
theorem nodup_hints (query : String) : (hints query).Nodup := by
  unfold hints
  split
  · decide
  · exact nodup_topicHints _

end CodeIndex.Query
