import CalculatorCatalog.Json.Value

/-!
# Fixed vocabularies

The tables that say how source categories, subcategories and old category names are called in
generated files, and the label texts that are known beforehand for short keys that occur in many
calculators. A name that a table does not list has a fallback: the standard category, the name of
the module, the name itself, or no text.

No name that the renaming of categories leads to is renamed itself (`categoryRenames_fixed`).
-/

set_option autoImplicit false
set_option relaxedAutoImplicit false

namespace CalculatorCatalog.Vocabulary

/-- The generated category for each source category. -/
def categories : List (String × String) := [
  ("Фундамент", "exterior"),
  ("Внутренняя отделка", "interior"),
  ("Наружная отделка", "exterior"),
  ("Инженерные работы", "interior"),
  ("Конструкции", "exterior")]

/-- The generated category for a source category that is not listed. -/
def standardCategory : String := "interior"

/-- The generated subcategory for each source subcategory. -/
def subCategories : List (String × String) := [
  ("Стены", "walls"),
  ("Полы", "flooring"),
  ("Потолки", "ceilings"),
  ("Фундамент", "foundation"),
  ("Кровля", "roofing"),
  ("Перегородки", "partitions"),
  ("Утепление", "insulation"),
  ("Ванная / туалет", "bathroom"),
  ("Окна / двери", "windows_doors"),
  ("Ровнители / смеси", "mix"),
  ("Фасад", "facade")]

/-- The new name for each old category name. -/
def categoryRenames : List (String × String) := [
  ("foundation", "exterior"),
  ("walls", "exterior"),
  ("roofing", "exterior"),
  ("flooring", "interior"),
  ("ceilings", "interior"),
  ("wallFinishing", "interior"),
  ("insulation", "exterior"),
  ("engineering", "interior"),
  ("windowsDoors", "interior"),
  ("facade", "exterior"),
  ("auxiliary", "exterior"),
  ("other", "interior")]

/-- The label texts of short keys that occur in many calculators. -/
def curatedLabels : List (String × String) := [
  -- Calculator titles
  ("bathroomTile", "Плитка в ванной"),
  ("waterproofing", "Гидроизоляция"),
  ("electrics", "Электрика"),
  ("plumbing", "Сантехника"),
  ("heating", "Отопление"),
  ("ventilation", "Вентиляция"),
  ("siding", "Сайдинг"),
  ("facadePanels", "Фасадные панели"),
  ("woodFacade", "Деревянный фасад"),
  ("brickFacade", "Облицовочный кирпич"),
  ("wetFacade", "Мокрый фасад"),
  ("stripTitle", "Ленточный фундамент"),
  ("mineralInsulation", "Минеральная изоляция"),
  ("foamInsulation", "Пенная изоляция"),
  ("putty", "Шпаклевка"),
  ("primer", "Грунтовка"),
  ("tileGlue", "Плиточный клей"),
  ("plaster", "Штукатурка"),
  ("metalRoofing", "Металлическая кровля"),
  ("softRoofing", "Мягкая кровля"),
  ("gutters", "Водостоки"),
  ("stairs", "Лестница"),
  ("fence", "Забор"),
  ("blindArea", "Отмостка"),
  ("basement", "Подвал / Погреб"),
  ("balcony", "Балкон / Лоджия"),
  ("attic", "Мансарда"),
  ("terrace", "Терраса"),
  ("windowsInstall", "Установка окон"),
  ("doorsInstall", "Установка дверей"),
  ("slopesFinishing", "Отделка откосов"),
  -- Input fields
  ("wallArea", "Площадь стен"),
  ("floorArea", "Площадь пола"),
  ("tileWidth", "Ширина плитки"),
  ("tileHeight", "Высота плитки"),
  ("wallHeight", "Высота стены"),
  ("cableLength", "Длина кабеля"),
  ("outletsCount", "Количество розеток"),
  ("switchesCount", "Количество выключателей"),
  ("pipeDiameter", "Диаметр трубы"),
  ("pipeLength", "Длина труб"),
  ("radiatorPower", "Мощность радиатора"),
  ("ductDiameter", "Диаметр воздуховода"),
  ("sidingWidth", "Ширина сайдинга"),
  ("sidingHeight", "Высота сайдинга"),
  ("panelWidth", "Ширина панели"),
  ("panelHeight", "Высота панели"),
  ("thickness", "Толщина"),
  ("insulationType", "Тип утепления"),
  ("foundationLength", "Длина фундамента"),
  ("foundationDepth", "Глубина фундамента"),
  ("foundationWidth", "Ширина фундамента"),
  ("stairsHeight", "Высота лестницы"),
  ("stepsCount", "Количество ступеней"),
  ("stepWidth", "Ширина ступени"),
  ("fenceHeight", "Высота забора"),
  ("postSpacing", "Расстояние между столбами"),
  ("windowWidth", "Ширина окна"),
  ("windowHeight", "Высота окна"),
  ("doorWidth", "Ширина двери"),
  ("doorHeight", "Высота двери"),
  ("slopeDepth", "Глубина откоса"),
  -- Result labels
  ("totalArea", "Общая площадь"),
  ("tape", "Лента"),
  ("cable", "Кабель"),
  ("outlets", "Розетки"),
  ("switches", "Выключатели"),
  ("pipes", "Трубы"),
  ("fittings", "Фитинги"),
  ("radiators", "Радиаторы"),
  ("ducts", "Воздуховоды"),
  ("panels", "Панели"),
  ("profiles", "Профили"),
  ("fasteners", "Крепеж"),
  ("insulation", "Утеплитель"),
  ("membrane", "Мембрана"),
  ("posts", "Столбы"),
  ("boards", "Доски"),
  ("steps", "Ступени"),
  ("handrails", "Перила"),
  ("slopes", "Откосы")]

/-- The generated category for a source category. -/
def categoryFor (source : String) : String :=
  (Json.member? source categories).getD standardCategory

/-- The generated subcategory for a source subcategory declared in a module. -/
def subCategoryFor (source module : String) : String :=
  (Json.member? source subCategories).getD module

/-- The new name of a category; a name that is not listed stays. -/
def renamedCategory (name : String) : String :=
  (Json.member? name categoryRenames).getD name

/-- The label text that is known beforehand for a short key. -/
def curatedLabel? (shortKey : String) : Option String :=
  Json.member? shortKey curatedLabels

/-- Renaming a second time changes nothing: no new name is listed as an old one. -/
theorem categoryRenames_fixed :
    ∀ entry ∈ categoryRenames, Json.member? entry.2 categoryRenames = none := by
  decide

end CalculatorCatalog.Vocabulary
