import Stencil.Path
import Stencil.Spelling
import Stencil.Template.Routing
import Stencil.Template.Server
import Stencil.Template.Services

/-! # The catalog

    The templates of a module, with the place of what each one makes, and the
    files of a fresh server.  Both lists are in the order in which the files are
    written. -/

namespace Stencil

/-! ## Module templates -/

/-- The kinds of files a module consists of. -/
inductive Category where
  | services
  | controllers
  | routes
deriving DecidableEq, Repr

/-- The name of a category. -/
def Category.text : Category → String
  | .services => "services"
  | .controllers => "controllers"
  | .routes => "routes"

/-- A template that is filled in for every module. -/
structure ModuleTemplate where
  name : String
  category : Category
  verb : String
  builtin : String
deriving DecidableEq, Repr

namespace ModuleTemplate

/-- The path of the file that the template makes for a module, relative to the
    root of the project. -/
def outputPath (template : ModuleTemplate) (module : String) : String :=
  match template.category with
  | .services =>
      Path.join (Path.join "src/services" (servicesDirectory module))
        (pascalCase template.verb ++ pascalCase module ++ "Service.ts")
  | .controllers => Path.join "src/controllers" (pascalCase module ++ "Controller.ts")
  | .routes => Path.join "src/routes" (Text.lowerCase module ++ "Routes.ts")

/-- What the template makes, in two words. -/
def description (template : ModuleTemplate) : String :=
  template.verb ++ " " ++ template.category.text

/-- The templates of a module. -/
def all : List ModuleTemplate :=
  [⟨"services/service.delete.ts.tpl", .services, "delete", Template.deleteService⟩,
    ⟨"services/service.list.ts.tpl", .services, "list", Template.listService⟩,
    ⟨"services/service.show.ts.tpl", .services, "show", Template.showService⟩,
    ⟨"services/service.store.ts.tpl", .services, "store", Template.storeService⟩,
    ⟨"services/service.update.ts.tpl", .services, "update", Template.updateService⟩,
    ⟨"controller.ts.tpl", .controllers, "controller", Template.controller⟩,
    ⟨"route.ts.tpl", .routes, "route", Template.router⟩]

end ModuleTemplate

/-! ## Server files -/

/-- A file of a fresh server. -/
structure ServerFile where
  name : String
  output : String
  builtin : String
deriving DecidableEq, Repr

/-- The files of a fresh server. -/
def ServerFile.all : List ServerFile :=
  [⟨"init/config/auth.ts.tpl", "src/config/auth.ts", Template.authConfig⟩,
    ⟨"init/database/index.ts.tpl", "src/database/index.ts", Template.databaseClient⟩,
    ⟨"init/database/schema.prisma.tpl", "src/database/schema.prisma",
      Template.databaseSchema⟩,
    ⟨"init/database/seed.ts.tpl", "src/database/seed.ts", Template.databaseSeed⟩,
    ⟨"init/error/AppError.ts.tpl", "src/error/AppError.ts", Template.appError⟩,
    ⟨"init/middleware/auth.ts.tpl", "src/middleware/auth.ts", Template.authMiddleware⟩,
    ⟨"init/@types/express.d.ts.tpl", "src/@types/express.d.ts", Template.expressTypes⟩,
    ⟨"init/utils/logger.ts.tpl", "src/utils/logger.ts", Template.logger⟩,
    ⟨"init/utils/refreshtoken.ts.tpl", "src/utils/refreshtoken.ts", Template.refreshToken⟩,
    ⟨"init/app.ts.tpl", "src/app.ts", Template.app⟩,
    ⟨"init/server.ts.tpl", "src/server.ts", Template.server⟩]

end Stencil
