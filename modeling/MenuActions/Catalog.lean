import MenuActions.ActionResult
import MenuActions.Template
import MenuActions.Text.LetterCase
import MenuActions.Text.Split

/-!
# Message catalogs

Texts by locale and key. A message is looked up under the locale asked for, then under its language,
then in English; the tokens of its text are filled with the replacements of a result.
-/

namespace MenuActions

open Text

/-- A text for a key in a locale. -/
structure CatalogEntry where
  locale : String
  key : String
  template : String
  deriving DecidableEq, Repr

/-- The texts of a catalog; the first entry for a locale and key counts. -/
structure Catalog where
  entries : List CatalogEntry

namespace Catalog

/-- The locale that is tried last. -/
def fallbackLocale : String := "en"

/-- A locale in lower case. -/
def lowerLocale (locale : String) : String :=
  String.ofList (lower locale.toList)

/-- The catalog without texts. -/
def empty : Catalog := ⟨[]⟩

/-- Adds a text, or replaces the text that was there. -/
def insert (catalog : Catalog) (locale key template : String) : Catalog :=
  ⟨⟨lowerLocale locale, key, template⟩ :: catalog.entries⟩

/-- The English texts of the engine's messages. -/
def builtin : Catalog :=
  MessageKey.english.foldl (fun catalog entry => catalog.insert fallbackLocale entry.1 entry.2)
    empty

/-- The text under a key, for a locale in lower case. -/
def text? (catalog : Catalog) (locale key : String) : Option String :=
  (catalog.entries.find? fun entry => entry.locale == locale && entry.key == key).map
    CatalogEntry.template

/-- Whether there is a text for a key in a locale. -/
def contains (catalog : Catalog) (locale key : String) : Bool :=
  (catalog.text? (lowerLocale locale) key).isSome

/-- The language of a locale: what stands before its first underscore or hyphen. -/
def language? (locale : String) : Option String :=
  let isMark := fun c : Char => c == '_' || c == '-'
  if locale.toList.any isMark then
    some (String.ofList (locale.toList.takeWhile fun c => !isMark c))
  else none

/-- The locales in which a message is looked for, in order. -/
def candidates (locale : Option String) : List String :=
  match locale with
  | none => [fallbackLocale]
  | some locale =>
      let locale := lowerLocale locale
      match language? locale with
      | some language => [locale, language, fallbackLocale]
      | none => [locale, fallbackLocale]

/-- The message under a key, filled with replacements; the key itself when there is no text. -/
def render (catalog : Catalog) (key : String) (replacements : Table Json)
    (locale : Option String) : String :=
  match (candidates locale).findSome? fun locale => catalog.text? locale key with
  | none => key
  | some template =>
      String.ofList <|
        Template.fill Template.isReplacementChar
          (fun name => (replacements.get? name).map Json.toText) template.toList

/-- The message of a result. -/
def renderResult (catalog : Catalog) (result : ActionResult) (locale : Option String) : String :=
  catalog.render result.message result.replacements locale

end Catalog

end MenuActions
