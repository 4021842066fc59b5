import GameScript.Reader.PathSet

/-!
# The built-in readers

Each built-in reader has a name, a family, a priority within it, perhaps the one game it is for,
and the files that it claims by default.
-/

namespace GameScript

inductive Game where
  | stellaris
  | hoi4
  | other
  deriving DecidableEq

/-- The families of readers, in the order in which they are asked. -/
inductive Family where
  /-- Readers for one game. -/
  | game
  /-- Readers for every game. -/
  | general
  /-- The reader of all other files. -/
  | fallback
  deriving DecidableEq

inductive BuiltIn where
  | stellarisOverwritten
  | stellarisKeptFileName
  | stellarisSingleFile
  | stellarisScriptedVariables
  | stellarisWholeFile
  | stellarisFlags
  | stellarisComponentTags
  | stellarisTerraform
  | stellarisInitializers
  | hoi4Keyed
  | hoi4InnerLayer
  | hoi4KeyValues
  | hoi4WholeFile
  | graphics
  | defines
  | localization
  | wholeFile
  | binary
  | keyed
  | fallback
  deriving DecidableEq

namespace BuiltIn

/-- In the order of registration. -/
def all : List BuiltIn :=
  [stellarisOverwritten, stellarisKeptFileName, stellarisSingleFile, stellarisScriptedVariables,
   stellarisWholeFile, stellarisFlags, stellarisComponentTags, stellarisTerraform,
   stellarisInitializers, hoi4Keyed, hoi4InnerLayer, hoi4KeyValues, hoi4WholeFile, graphics,
   defines, localization, wholeFile, binary, keyed, fallback]

def name : BuiltIn → Text
  | stellarisOverwritten => "StellarisOverwrittenParser"
  | stellarisKeptFileName => "StellarisOverwrittenObjectWithPreserveFileNameParser"
  | stellarisSingleFile => "StellarisOverwrittenObjectSingleFileParser"
  | stellarisScriptedVariables => "StellarisScriptedVariablesParser"
  | stellarisWholeFile => "StellarisWholeTextParser"
  | stellarisFlags => "StellarisFlagsParser"
  | stellarisComponentTags => "StellarisComponentTagsParser"
  | stellarisTerraform => "StellarisTerraformParser"
  | stellarisInitializers => "StellarisSolarSystemInitializersParser"
  | hoi4Keyed => "HOI4KeyParser"
  | hoi4InnerLayer => "HOI4InnerLayerParser"
  | hoi4KeyValues => "HOI4KeyValuePairParser"
  | hoi4WholeFile => "HOI4WholeTextParser"
  | graphics => "GenericGraphicsParser"
  | defines => "GenericDefinesParser"
  | localization => "GenericLocalizationParser"
  | wholeFile => "GenericWholeTextParser"
  | binary => "GenericBinaryParser"
  | keyed => "GenericKeyParser"
  | fallback => "DefaultParser"

/-- The only game whose files are claimed. -/
def game? : BuiltIn → Option Game
  | stellarisOverwritten | stellarisKeptFileName | stellarisSingleFile
  | stellarisScriptedVariables | stellarisWholeFile | stellarisFlags | stellarisComponentTags
  | stellarisTerraform | stellarisInitializers => some .stellaris
  | hoi4Keyed | hoi4InnerLayer | hoi4KeyValues | hoi4WholeFile => some .hoi4
  | graphics | defines | localization | wholeFile | binary | keyed | fallback => none

def family (b : BuiltIn) : Family :=
  if b = fallback then .fallback else if b.game?.isSome then .game else .general

def priority : BuiltIn → Int
  | hoi4Keyed => 10
  | graphics | localization => 2
  | _ => 1

/-- The files claimed by their path, unless settings say otherwise. -/
def defaultFiles : BuiltIn → PathSet
  | stellarisOverwritten =>
    { folders := ["common/pop_jobs", "common/traits", "common/districts",
        "common/planet_classes", "common/prescripted_countries", "common/species_archetypes",
        "common/buildings"] }
  | stellarisKeptFileName => { directories := ["common/strategic_resources"] }
  | stellarisSingleFile =>
    { directories := ["common/ethics", "common/starbase_modules", "common/ship_sizes",
        "common/strategic_resources", "common/governments/authorities"] }
  | stellarisScriptedVariables => { folders := ["common/scripted_variables"] }
  | stellarisWholeFile =>
    { folders := ["common/diplo_phrases", "map/galaxy", "common/name_lists",
        "common/species_names", "gfx/portraits/portraits", "common/random_names/base",
        "common/random_names", "common/start_screen_messages", "map/setup_scenarios",
        "common/country_container", "common/diplomacy_economy", "common/inline_scripts",
        "common/economic_plans", "common/species_classes", "common/gamesetup_settings"] }
  | stellarisFlags => { folders := ["flags"] }
  | stellarisComponentTags => { folders := ["common/component_tags"] }
  | stellarisTerraform => { folders := ["common/terraform"] }
  | stellarisInitializers => { folders := ["common/solar_system_initializers"] }
  | hoi4Keyed => { folders := ["common/bookmarks", "common/difficulty_settings"] }
  | hoi4InnerLayer => { folders := ["common/abilities", "common/characters"] }
  | hoi4KeyValues => { folders := ["common/country_tags"] }
  | hoi4WholeFile => { files := ["common/graphicalculturetype.txt"] }
  | graphics => { extensions := [".gui", ".gfx"] }
  | defines => { folders := ["common/defines"] }
  | localization => { extensions := [".yml"] }
  | wholeFile =>
    { folders := ["common/on_actions"], extensions := [".shader", ".fxh"] }
  | binary | keyed | fallback => {}

end BuiltIn

end GameScript
